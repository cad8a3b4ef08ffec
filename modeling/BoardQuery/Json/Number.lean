/-
JSON numbers.  The shape of a number is its sign, its whole digits, and the
digits of a fraction and of an exponent if it has them.  A whole number below
2^64 without fraction, exponent and sign is a count; every other number is of
another type, and one beyond the largest binary64 value is no number at all.
-/
import BoardQuery.Json.Text

namespace BoardQuery

def isDigitByte (b : UInt8) : Bool :=
  0x30 ≤ b && b ≤ 0x39

/-- The digits at the head of the bytes, and the bytes after them. -/
def spanDigits (bs : Bytes) : Bytes × Bytes :=
  (bs.takeWhile isDigitByte, bs.dropWhile isDigitByte)

structure NumberShape where
  negative : Bool
  whole : Bytes
  fraction : Option Bytes
  exponent : Option (Bool × Bytes)
deriving DecidableEq, Repr

/-- Reads the whole digits.  A zero stands alone. -/
def readWhole : Reader Bytes
  | [] => .error .truncated
  | b :: rest =>
      if b = '0'.toUInt8 then
        if (spanDigits rest).1 = [] then .ok ([b], rest) else .error .malformed
      else if isDigitByte b then .ok (b :: (spanDigits rest).1, (spanDigits rest).2)
      else .error .malformed

def readSomeDigits (bs : Bytes) : Except Fault (Bytes × Bytes) :=
  match spanDigits bs with
  | ([], []) => .error .truncated
  | ([], _ :: _) => .error .malformed
  | (digits, rest) => .ok (digits, rest)

/-- Reads a point and the digits after it, if there is a point. -/
def readFraction : Reader (Option Bytes)
  | [] => .ok (none, [])
  | b :: rest =>
      if b = '.'.toUInt8 then (readSomeDigits rest).map fun (digits, rest) =>
        (some digits, rest)
      else .ok (none, b :: rest)

/-- Reads the sign of an exponent: whether it is a minus, and the rest. -/
def readSign : Bytes → Bool × Bytes
  | [] => (false, [])
  | b :: rest =>
      if b = '-'.toUInt8 then (true, rest)
      else if b = '+'.toUInt8 then (false, rest)
      else (false, b :: rest)

/-- Reads the letter `e` and the exponent after it, if there is that letter. -/
def readExponent : Reader (Option (Bool × Bytes))
  | [] => .ok (none, [])
  | b :: rest =>
      if b = 'e'.toUInt8 ∨ b = 'E'.toUInt8 then
        (readSomeDigits (readSign rest).2).map fun (digits, after) =>
          (some ((readSign rest).1, digits), after)
      else .ok (none, b :: rest)

def readUnsigned (negative : Bool) (bs : Bytes) :
    Except Fault (NumberShape × Bytes) := do
  let (whole, bs) ← readWhole bs
  let (fraction, bs) ← readFraction bs
  let (exponent, bs) ← readExponent bs
  return (⟨negative, whole, fraction, exponent⟩, bs)

def readShape : Reader NumberShape
  | [] => .error .truncated
  | b :: rest =>
      if b = '-'.toUInt8 then readUnsigned true rest
        else readUnsigned false (b :: rest)

/-- Takes digits into a significand for as long as it stays below 2^64; gives it
and the number of digits taken. -/
def fillSignificand (value : Nat) : Bytes → Nat × Nat
  | [] => (value, 0)
  | b :: rest =>
      let next := 10 * value + (b.toNat - 0x30)
      if next < Nat.pow 2 64 then
        let (value, taken) := fillSignificand next rest
        (value, taken + 1)
      else (value, 0)

def digitsValue (digits : Bytes) : Nat :=
  digits.foldl (fun value b => 10 * value + (b.toNat - 0x30)) 0

/-- The binary64 value nearest to `n`, ties to the even one, as if exponents had
no bound. -/
def roundBinary64 (n : Nat) : Nat :=
  if n < Nat.pow 2 53 then n
  else
    let excess := n.log2 - 52
    let quotient := n >>> excess
    let remainder := n % Nat.pow 2 excess
    let half := Nat.pow 2 (excess - 1)
    if half < remainder ∨ (remainder = half ∧ quotient % 2 = 1) then
      (quotient + 1) <<< excess
    else quotient <<< excess

/-- Whether significand times power of ten rounds beyond the largest binary64
value.  Both factors are rounded before they are multiplied. -/
def overflowsBinary64 (significand : Nat) (exponent : Int) : Bool :=
  if exponent < 0 then false
  else if exponent ≤ 308 then
    Nat.pow 2 1024 - Nat.pow 2 970 ≤
      roundBinary64 significand * roundBinary64 (Nat.pow 10 exponent.toNat)
  else significand != 0

/-- The number that a shape stands for: a count, or `none` for one of another
type. -/
def NumberShape.value (shape : NumberShape) : Except Fault (Option UInt64) :=
  let (whole, taken) := fillSignificand 0 shape.whole
  let dropped := shape.whole.length - taken
  let (significand, places) :=
    match shape.fraction with
    | none => (whole, 0)
    | some digits => fillSignificand whole digits
  let power : Int :=
    match shape.exponent with
    | none => 0
    | some (true, digits) => -(digitsValue digits : Int)
    | some (false, digits) => digitsValue digits
  if dropped = 0 ∧ shape.fraction = none ∧ shape.exponent = none then
    .ok (if shape.negative then none else some (UInt64.ofNat whole))
  else if overflowsBinary64 significand (dropped - places + power) then
    .error .malformed
  else .ok none

def readNumber : Reader (Option UInt64) := fun bs => do
  let (shape, rest) ← readShape bs
  return (← shape.value, rest)

/-- Passes over a number.  One that breaks off is malformed here. -/
def skipNumber (bs : Bytes) : Except Fault Bytes :=
  match readShape bs with
  | .ok (_, rest) => .ok rest
  | .error _ => .error .malformed

theorem length_spanDigits_le (bs : Bytes) : (spanDigits bs).2.length ≤ bs.length :=
  (List.dropWhile_sublist _).length_le

theorem length_lt_of_readWhole {bs digits rest : Bytes}
    (h : readWhole bs = .ok (digits, rest)) :
    rest.length < bs.length := by
  cases bs with
  | nil => simp [readWhole] at h
  | cons b bs =>
      have hspan := length_spanDigits_le bs
      simp only [readWhole] at h
      split at h
      · split at h <;> simp only [Except.ok.injEq, Prod.mk.injEq, reduceCtorEq] at h
        simp [← h.2]
      · split at h <;> simp only [Except.ok.injEq, Prod.mk.injEq, reduceCtorEq] at h
        simp only [← h.2, List.length_cons]
        omega

theorem length_le_of_readSomeDigits {bs digits rest : Bytes}
    (h : readSomeDigits bs = .ok (digits, rest)) : rest.length ≤ bs.length := by
  have hspan := length_spanDigits_le bs
  unfold readSomeDigits at h
  split at h
  · simp at h
  · simp at h
  · next heq =>
      simp only [Except.ok.injEq, Prod.mk.injEq] at h
      rw [heq] at hspan
      rw [← h.2]
      exact hspan

theorem length_readSign_le (bs : Bytes) : (readSign bs).2.length ≤ bs.length := by
  unfold readSign
  split
  · simp
  · split
    · simp
    · split <;> simp

theorem length_le_of_readFraction {bs rest : Bytes} {fraction : Option Bytes}
    (h : readFraction bs = .ok (fraction, rest)) : rest.length ≤ bs.length := by
  cases bs with
  | nil =>
      simp only [readFraction, Except.ok.injEq, Prod.mk.injEq] at h; simp [← h.2]
  | cons b bs =>
      simp only [readFraction] at h
      split at h
      · cases hdigits : readSomeDigits bs with
        | error fault => simp [hdigits, Except.map] at h
        | ok pair =>
            simp only [hdigits, Except.map, Except.ok.injEq, Prod.mk.injEq] at h
            exact h.2 ▸ Nat.le_succ_of_le (length_le_of_readSomeDigits hdigits)
      · simp only [Except.ok.injEq, Prod.mk.injEq] at h
        simp [← h.2]

theorem length_le_of_readExponent {bs rest : Bytes}
    {exponent : Option (Bool × Bytes)}
    (h : readExponent bs = .ok (exponent, rest)) : rest.length ≤ bs.length := by
  cases bs with
  | nil =>
      simp only [readExponent, Except.ok.injEq, Prod.mk.injEq] at h; simp [← h.2]
  | cons b bs =>
      simp only [readExponent] at h
      split at h
      · cases hdigits : readSomeDigits (readSign bs).2 with
        | error fault => simp [hdigits, Except.map] at h
        | ok pair =>
            simp only [hdigits, Except.map, Except.ok.injEq, Prod.mk.injEq] at h
            have hsign := length_readSign_le bs
            have hread := length_le_of_readSomeDigits hdigits
            rw [← h.2, List.length_cons]
            omega
      · simp only [Except.ok.injEq, Prod.mk.injEq] at h
        simp [← h.2]

theorem length_lt_of_readUnsigned {negative : Bool} {bs rest : Bytes}
    {shape : NumberShape} (h : readUnsigned negative bs = .ok (shape, rest)) :
    rest.length < bs.length := by
  unfold readUnsigned at h
  cases hwhole : readWhole bs with
  | error fault => simp [hwhole, bind, Except.bind] at h
  | ok whole =>
      cases hfraction : readFraction whole.2 with
      | error fault => simp [hwhole, hfraction, bind, Except.bind] at h
      | ok fraction =>
          cases hexponent : readExponent fraction.2 with
          | error fault =>
              simp [hwhole, hfraction, hexponent, bind, Except.bind] at h
          | ok exponent =>
              simp only [hwhole, hfraction, hexponent, bind, Except.bind, pure,
                Except.pure, Except.ok.injEq, Prod.mk.injEq] at h
              have h₁ := length_lt_of_readWhole hwhole
              have h₂ := length_le_of_readFraction hfraction
              have h₃ := length_le_of_readExponent hexponent
              rw [← h.2]
              omega

theorem length_lt_of_readShape {bs rest : Bytes} {shape : NumberShape}
    (h : readShape bs = .ok (shape, rest)) : rest.length < bs.length := by
  cases bs with
  | nil => simp [readShape] at h
  | cons b bs =>
      simp only [readShape] at h
      split at h
      · exact Nat.lt_succ_of_lt (length_lt_of_readUnsigned h)
      · exact length_lt_of_readUnsigned h

theorem length_lt_of_skipNumber {bs rest : Bytes} (h : skipNumber bs = .ok rest) :
    rest.length < bs.length := by
  unfold skipNumber at h
  split at h
  · next heq =>
      simp only [Except.ok.injEq] at h
      exact h ▸ length_lt_of_readShape heq
  · simp at h

theorem length_lt_of_readNumber {bs rest : Bytes} {value : Option UInt64}
    (h : readNumber bs = .ok (value, rest)) : rest.length < bs.length := by
  unfold readNumber at h
  cases hshape : readShape bs with
  | error fault => simp [hshape, bind, Except.bind] at h
  | ok pair =>
      cases hvalue : pair.1.value with
      | error fault => simp [hshape, hvalue, bind, Except.bind] at h
      | ok value' =>
          simp only [hshape, hvalue, bind, Except.bind, pure, Except.pure,
            Except.ok.injEq, Prod.mk.injEq] at h
          exact h.2 ▸ length_lt_of_readShape hshape

end BoardQuery
