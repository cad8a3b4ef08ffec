/-
Count ranges.  A range has a lower bound and may have an upper one, both
included.  The checked ways to make a range refuse bounds in the wrong order;
the bare structure does not, and such a range accepts no count.
-/
import BoardQuery.Error

namespace BoardQuery

/-- The counts from `min` up to `max`, or from `min` on. -/
structure CountRange where
  min : UInt64
  max : Option UInt64
deriving DecidableEq, Repr

namespace CountRange

def exactly (n : UInt64) : CountRange :=
  ⟨n, some n⟩

def atLeast (n : UInt64) : CountRange :=
  ⟨n, none⟩

/-- The error for bounds in the wrong order. -/
def reversed (min max : UInt64) : Error :=
  .invalidRange s!"{min} {max}" "lower bound exceeds upper bound"

/-- The counts from `min` to `max`, which must be in order. -/
def between (min max : UInt64) : Except Error CountRange :=
  if min ≤ max then .ok ⟨min, some max⟩ else .error (reversed min max)

/-- The range with these bounds, which must be in order if there are two. -/
def ofBounds (min : UInt64) : Option UInt64 → Except Error CountRange
  | some max => between min max
  | none => .ok (atLeast min)

def accepts (r : CountRange) (count : Nat) : Bool :=
  r.min.toNat ≤ count && r.max.all fun max => count ≤ max.toNat

/-- The shortest text that reads back as the range. -/
def text (r : CountRange) : String :=
  match r.max with
  | none => s!"{r.min}.."
  | some max => if max = r.min then toString r.min else s!"{r.min} {max}"

end CountRange

/-- A condition on the number of images that match: that it lies in a range, or
that it is a multiple of `n`, which is not zero. -/
inductive Criterion where
  | within (range : CountRange)
  | multipleOf (n : UInt64)
deriving DecidableEq, Repr

def Criterion.accepts : Criterion → Nat → Bool
  | .within range, count => range.accepts count
  | .multipleOf n, count => n.toNat != 0 && count % n.toNat == 0

/-- The criterion as it stands in a printed tree. -/
def Criterion.text : Criterion → String
  | .within range => range.text
  | .multipleOf n => "EveryNth \x7b n: " ++ toString n ++ " \x7d"

end BoardQuery
