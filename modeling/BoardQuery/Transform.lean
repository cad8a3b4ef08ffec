/-
Transforms of the board.  A shift moves every square, a symmetry is known by
its number, and the other kinds are known by name only; what a transform does
to a filter is for the filter to decide.
-/
import BoardQuery.Printer

namespace BoardQuery

/-- A board: the mask of its occupied squares. -/
abbrev Board := UInt32

inductive Transform where
  | shift (n : Nat)
  | symmetry (n : Nat)
  | named (name : String)
  | foreign
  | unprintable
deriving DecidableEq, Repr

namespace Transform

/-- The transform as it stands in messages. -/
def label : Transform → String
  | shift n => s!"Shift({n})"
  | symmetry n => s!"Symmetry({n})"
  | named name => name
  | foreign => "Foreign"
  | unprintable => "Unprintable"

/-- The transform as it stands in a printed tree. -/
def print : Transform → Print
  | shift n => .text s!"<Shift {n}>"
  | symmetry n => .text s!"<Symmetry {n}>"
  | named name => .text name
  | foreign => .text "<Foreign>"
  | unprintable => .fail

end Transform

/-- The squares of a mask after a shift.  Squares that leave the board are lost. -/
def shiftMask (mask : UInt32) (n : Nat) : UInt32 :=
  if n < 32 then mask <<< UInt32.ofNat n else 0

end BoardQuery
