/-
Quoted texts and fixed words of JSON.  A quoted text is a run of pieces up to
the closing quote; a piece is a plain byte, an escape that stands for one byte,
or four hexadecimal digits that stand for a UTF-16 code unit.  A text whose
value is wanted joins code units to characters as it goes and must be UTF-8 as
a whole; a text that is only passed over needs neither.
-/
import BoardQuery.Json.Fault
import BoardQuery.Text.Utf8

namespace BoardQuery

/-- A reader turns the bytes that are left into a value and the bytes after it. -/
abbrev Reader (α : Type) := Bytes → Except Fault (α × Bytes)

def isJsonBlank (b : UInt8) : Bool :=
  b == 0x20 || b == 0x0A || b == 0x0D || b == 0x09

/-- The bytes from the first one on that is not blank. -/
def skipBlanks (bs : Bytes) : Bytes :=
  bs.dropWhile isJsonBlank

theorem length_skipBlanks_le (bs : Bytes) : (skipBlanks bs).length ≤ bs.length :=
  (List.dropWhile_sublist _).length_le

/-- Reads the letters of a word that has to follow. -/
def skipWord : Bytes → Bytes → Except Fault Bytes
  | [], bs => .ok bs
  | _ :: _, [] => .error .truncated
  | letter :: word, b :: bs =>
      if b = letter then skipWord word bs else .error .malformed

theorem length_le_of_skipWord {word bs rest : Bytes}
    (h : skipWord word bs = .ok rest) :
    rest.length ≤ bs.length := by
  induction word generalizing bs with
  | nil => simp only [skipWord, Except.ok.injEq] at h; simp [h]
  | cons letter word ih =>
      cases bs with
      | nil => simp [skipWord] at h
      | cons b bs =>
          simp only [skipWord] at h
          split at h
          · exact Nat.le_succ_of_le (ih h)
          · simp at h

/-- What stands at one place of a quoted text: its closing quote, a byte of it,
or a UTF-16 code unit. -/
inductive Piece where
  | close
  | byte (b : UInt8)
  | unit (code : Nat)
deriving DecidableEq, Repr

def hexValue? (b : UInt8) : Option Nat :=
  if 0x30 ≤ b ∧ b ≤ 0x39 then some (b.toNat - 0x30)
  else if 0x41 ≤ b ∧ b ≤ 0x46 then some (b.toNat - 0x41 + 10)
  else if 0x61 ≤ b ∧ b ≤ 0x66 then some (b.toNat - 0x61 + 10)
  else none

/-- Reads the four hexadecimal digits of a code unit. -/
def readUnit : Reader Nat
  | a :: b :: c :: d :: rest =>
      match hexValue? a, hexValue? b, hexValue? c, hexValue? d with
      | some a, some b, some c, some d =>
          .ok (((a * 16 + b) * 16 + c) * 16 + d, rest)
      | _, _, _, _ => .error .malformed
  | _ => .error .truncated

/-- The byte that a one-letter escape stands for. -/
def shortEscape? (b : UInt8) : Option UInt8 :=
  if b = '"'.toUInt8 ∨ b = '\\'.toUInt8 ∨ b = '/'.toUInt8 then some b
  else if b = 'b'.toUInt8 then some 0x08
  else if b = 'f'.toUInt8 then some 0x0C
  else if b = 'n'.toUInt8 then some 0x0A
  else if b = 'r'.toUInt8 then some 0x0D
  else if b = 't'.toUInt8 then some 0x09
  else none

def readEscape : Reader Piece
  | [] => .error .truncated
  | b :: rest =>
      if b = 'u'.toUInt8 then (readUnit rest).map fun (code, rest) =>
        (.unit code, rest)
      else
        match shortEscape? b with
        | some b => .ok (.byte b, rest)
        | none => .error .malformed

def readPiece : Reader Piece
  | [] => .error .truncated
  | b :: rest =>
      if b = '"'.toUInt8 then .ok (.close, rest)
      else if b = '\\'.toUInt8 then readEscape rest
      else if b < 0x20 then .error .malformed
      else .ok (.byte b, rest)

theorem length_lt_of_readUnit {bs rest : Bytes} {code : Nat}
    (h : readUnit bs = .ok (code, rest)) : rest.length < bs.length := by
  unfold readUnit at h
  split at h
  · split at h <;> simp only [Except.ok.injEq, Prod.mk.injEq, reduceCtorEq] at h
    simp only [← h.2, List.length_cons]
    omega
  · simp at h

theorem length_lt_of_readEscape {bs rest : Bytes} {piece : Piece}
    (h : readEscape bs = .ok (piece, rest)) : rest.length < bs.length := by
  unfold readEscape at h
  split at h
  · simp at h
  · next b tail =>
      split at h
      · cases hunit : readUnit tail with
        | error fault => simp [hunit, Except.map] at h
        | ok pair =>
            obtain ⟨code, tail'⟩ := pair
            simp only [hunit, Except.map, Except.ok.injEq, Prod.mk.injEq] at h
            have := length_lt_of_readUnit hunit
            simp only [← h.2, List.length_cons]
            omega
      · split at h <;> simp only [Except.ok.injEq, Prod.mk.injEq, reduceCtorEq] at h
        simp [← h.2]

theorem length_lt_of_readPiece {bs rest : Bytes} {piece : Piece}
    (h : readPiece bs = .ok (piece, rest)) : rest.length < bs.length := by
  unfold readPiece at h
  split at h
  · simp at h
  · next b tail =>
      split at h
      · simp only [Except.ok.injEq, Prod.mk.injEq] at h
        simp [← h.2]
      · split at h
        · exact Nat.lt_succ_of_lt (length_lt_of_readEscape h)
        · split at h <;> simp only [Except.ok.injEq, Prod.mk.injEq,
            reduceCtorEq] at h
          simp [← h.2]

/-- Passes over a quoted text, from behind its opening quote on. -/
def skipText (bs : Bytes) : Except Fault Bytes :=
  match _h : readPiece bs with
  | .error fault => .error fault
  | .ok (.close, rest) => .ok rest
  | .ok (_, rest) => skipText rest
termination_by bs.length
decreasing_by exact length_lt_of_readPiece ‹_›

/-- The part of a quoted text that has been read: its bytes, last one first,
and a leading surrogate that waits for its partner. -/
structure Draft where
  lead : Option Nat := none
  done : Bytes := []

def Draft.push (draft : Draft) (code : Nat) : Draft :=
  ⟨none, (String.utf8EncodeChar (Char.ofNat code)).reverse ++ draft.done⟩

/-- The draft with one more piece.  Surrogates come in pairs. -/
def Draft.add (draft : Draft) (piece : Piece) : Except Fault Draft :=
  match draft.lead, piece with
  | none, .byte b => .ok ⟨none, b :: draft.done⟩
  | none, .unit code =>
      if 0xD800 ≤ code ∧ code < 0xDC00 then .ok ⟨some code, draft.done⟩
      else if 0xDC00 ≤ code ∧ code < 0xE000 then .error .malformed
      else .ok (draft.push code)
  | some lead, .unit trail =>
      if 0xDC00 ≤ trail ∧ trail < 0xE000 then
        .ok (draft.push (0x10000 + (lead - 0xD800) * 0x400 + (trail - 0xDC00)))
      else .error .malformed
  | _, _ => .error .malformed

def Draft.finish (draft : Draft) : Except Fault String :=
  match draft.lead, ofUtf8? draft.done.reverse with
  | none, some text => .ok text
  | _, _ => .error .malformed

/-- Reads the rest of a quoted text of which a draft has been read. -/
def readTextOn (draft : Draft) (bs : Bytes) : Except Fault (String × Bytes) :=
  match _h : readPiece bs with
  | .error fault => .error fault
  | .ok (.close, rest) => draft.finish.map fun text => (text, rest)
  | .ok (piece, rest) =>
      match draft.add piece with
      | .error fault => .error fault
      | .ok draft => readTextOn draft rest
termination_by bs.length
decreasing_by exact length_lt_of_readPiece ‹_›

/-- Reads a quoted text, from behind its opening quote on. -/
def readText : Reader String :=
  readTextOn {}

theorem length_lt_of_skipText {bs rest : Bytes} (h : skipText bs = .ok rest) :
    rest.length < bs.length := by
  fun_induction skipText bs with
  | case1 bs fault hpiece => simp at h
  | case2 bs rest' hpiece =>
      simp only [Except.ok.injEq] at h
      exact h ▸ length_lt_of_readPiece hpiece
  | case3 bs piece rest' _ hpiece ih =>
      exact Nat.lt_trans (ih h) (length_lt_of_readPiece hpiece)

theorem length_lt_of_readTextOn {draft : Draft} {bs rest : Bytes} {text : String}
    (h : readTextOn draft bs = .ok (text, rest)) : rest.length < bs.length := by
  fun_induction readTextOn draft bs with
  | case1 draft bs fault hpiece => simp at h
  | case2 draft bs rest' hpiece =>
      cases hfin : draft.finish with
      | error fault => simp [hfin, Except.map] at h
      | ok text' =>
          simp only [hfin, Except.map, Except.ok.injEq, Prod.mk.injEq] at h
          exact h.2 ▸ length_lt_of_readPiece hpiece
  | case3 draft bs piece rest' _ hpiece fault hadd => simp at h
  | case4 draft bs piece rest' _ hpiece draft' hadd ih =>
      exact Nat.lt_trans (ih h) (length_lt_of_readPiece hpiece)

theorem length_lt_of_readText {bs rest : Bytes} {text : String}
    (h : readText bs = .ok (text, rest)) : rest.length < bs.length :=
  length_lt_of_readTextOn h

end BoardQuery
