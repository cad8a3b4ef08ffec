/-
Counts in decimal.  A numeral is an optional plus sign and at least one ASCII
digit, with any number of leading zeros; its value must fit in 64 bits.  Digits
are looked at from the left and the first fault is the one reported, so that a
bad digit beyond the place of an overflow goes unseen.
-/

namespace BoardQuery

inductive NumeralFault where
  | empty
  | badDigit
  | tooLarge
deriving DecidableEq, Repr

def NumeralFault.message : NumeralFault → String
  | .empty => "cannot parse integer from empty string"
  | .badDigit => "invalid digit found in string"
  | .tooLarge => "number too large to fit in target type"

def digit? (c : Char) : Option Nat :=
  if c.isDigit then some (c.toNat - '0'.toNat) else none

/-- Reads digits after those that gave `value`, which must stay below 2^64. -/
def readDigits (value : Nat) : List Char → Except NumeralFault Nat
  | [] => .ok value
  | c :: rest =>
      match digit? c with
      | none => .error .badDigit
      | some d =>
          if 10 * value + d < 2 ^ 64 then readDigits (10 * value + d) rest
          else .error .tooLarge

/-- Reads a numeral.  A plus sign on its own is a bad digit, and a minus sign
always is one. -/
def readNumeral : List Char → Except NumeralFault UInt64
  | [] => .error .empty
  | ['+'] => .error .badDigit
  | '+' :: digits => (readDigits 0 digits).map UInt64.ofNat
  | digits => (readDigits 0 digits).map UInt64.ofNat

end BoardQuery
