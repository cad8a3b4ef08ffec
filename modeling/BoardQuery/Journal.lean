/-
The journal of a call.  It records, in order, each call that reaches a leaf
filter and each remark that a node or a channel makes on the way.
-/
import BoardQuery.Transform

namespace BoardQuery

/-- The calls that a leaf filter can see. -/
inductive LeafCall where
  | test
  | transform (t : Transform)
  | clone
  | expand
deriving DecidableEq, Repr

inductive Event where
  | called (call : LeafCall) (leaf : String)
  | pruned (index : Nat) (transform : Transform)
  | expanded (kept total : Nat) (base : String)
  | matched (index : Nat)
  | closing (pending : Nat)
deriving DecidableEq, Repr

/-- Events in the order in which they happened. -/
abbrev Journal := List Event

/-- The text of a call on a leaf, if the event is one. -/
def Event.callText? : Event → Option String
  | .called .test leaf => some s!"match {leaf}"
  | .called (.transform t) leaf => some s!"transform {leaf} {t.label}"
  | .called .clone leaf => some s!"clone {leaf}"
  | .called .expand leaf => some s!"expand {leaf}"
  | _ => none

/-- The text of a remark with its level, if the event is one. -/
def Event.remark? : Event → Option String
  | .called _ _ => none
  | .pruned index t =>
      some s!"DEBUG pruned degenerate filter for transform {index} {t.label}"
  | .expanded kept total base =>
      some s!"DEBUG expanded {kept} of {total} transforms under {base}"
  | .matched index => some s!"TRACE transformed filter {index} matched"
  | .closing pending =>
      some s!"DEBUG closing in-memory channel with {pending} pending"

def Journal.calls (journal : Journal) : List String :=
  journal.filterMap Event.callText?

def Journal.remarks (journal : Journal) : List String :=
  journal.filterMap Event.remark?

end BoardQuery
