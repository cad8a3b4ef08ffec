/-
Blueprints of filters.  A blueprint says what filter to build.  It is kept by
the leaves that turn into other filters when they are transformed or cloned,
since those are built anew each time.
-/
import BoardQuery.Range.Parser
import BoardQuery.Transform

namespace BoardQuery

/-- The calls that a probe may be set up to refuse. -/
inductive Refusal where
  | test
  | transform
  | clone
  | expand
  | print
deriving DecidableEq, Repr

/-- What is fixed about a probe: how it is called, which squares it looks for,
whether its mask counts as empty, and which calls it refuses. -/
structure Traits where
  className : String := "Probe"
  label : String := ""
  mask : UInt32 := 0
  emptyMask : Bool := false
  refuses : List Refusal := []
deriving DecidableEq, Repr

inductive CriterionSource where
  | absent
  | text (input : String)
  | given (criterion : Criterion)
deriving DecidableEq, Repr

/-- The criterion itself.  Only a text may fail to give one. -/
def CriterionSource.resolve : CriterionSource → Except Error (Option Criterion)
  | .absent => .ok none
  | .text input => (CountRange.parse input).map fun range => some (.within range)
  | .given criterion => .ok (some criterion)

/-- What filter to build.  A chain is `depth` conjunctions of one part around a
leaf, and an orbit chain is `depth` orbits that are alike. -/
inductive Blueprint where
  | bit (mask : UInt32)
  | scripted (label : String) (script : List Char)
  | probe (traits : Traits) (cloneAs becomes : Option Blueprint)
  | all (parts : List Blueprint)
  | any (parts : List Blueprint)
  | orbit (transforms : List Transform) (criterion : CriterionSource)
      (base : Blueprint)
  | chain (depth : Nat) (leaf : Blueprint)
  | orbitChain (depth : Nat) (transforms : List Transform)
      (criterion : CriterionSource)
      (leaf : Blueprint)
deriving Inhabited

end BoardQuery
