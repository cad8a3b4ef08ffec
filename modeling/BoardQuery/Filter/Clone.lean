/-
Clones of filters.  A clone is a deep copy; a leaf may refuse to be cloned and
a probe may be set up to clone as something else.  An orbit can be cloned until
it is expanded, and its clone has to have its shape.
-/
import BoardQuery.Filter.Build
import BoardQuery.Reply

namespace BoardQuery

/-- The clone of a scripted leaf, which refuses at the character `C`. -/
def Filter.scriptedClone (label : String) (script : List Char) (current : Char) :
    Except Error Filter :=
  if current = 'C' then
    .error (.invalidConfiguration s!"clone {Filter.scriptedName label current}")
  else .ok (.scripted label script current)

/-- The clone of a probe: what it clones as, or a copy. -/
def Filter.probeClone (traits : Traits) (cloneAs becomes : Option Blueprint) :
    Except Error Filter :=
  if .clone ∈ traits.refuses then
    .error (.invalidConfiguration s!"clone {traits.label}")
  else
    match cloneAs with
    | some blueprint => blueprint.build
    | none => .ok (.probe traits cloneAs becomes)

/-- The clone of an orbit, as long as its shape is that of its source. -/
def Orbit.verified (source clone : Orbit) : Except Error Orbit :=
  match source.outline.verify clone.outline with
  | .error e => .error e
  | .ok () => .ok clone

mutual

def Filter.clone : Filter → Outcome Filter
  | .bit mask => { answer := .ok (.bit mask) }
  | .scripted label script current =>
      ⟨Filter.scriptedClone label script current,
        [.called .clone (Filter.scriptedName label current)]⟩
  | .probe traits cloneAs becomes =>
      ⟨Filter.probeClone traits cloneAs becomes, [.called .clone traits.label]⟩
  | .all parts => (Filter.cloneEach parts).map .all
  | .any parts => (Filter.cloneEach parts).map .any
  | .orbit o => o.clone.map .orbit

/-- The clone of an orbit: a copy with the clone of its base. -/
def Orbit.clone : Orbit → Outcome Orbit
  | .deferred ts criterion base =>
      let made := base.clone
      ⟨made.answer.bind fun copy =>
          (Orbit.deferred ts criterion base).verified (.deferred ts criterion copy),
        made.journal⟩
  | .expanded _ _ _ _ => { answer := .error .cloneExpanded }

def Filter.cloneEach : List Filter → Outcome (List Filter)
  | [] => { answer := .ok [] }
  | f :: rest => f.clone.cons fun _ => Filter.cloneEach rest

end

@[simp] theorem Filter.cloneEach_eq_inTurn (fs : List Filter) :
    Filter.cloneEach fs = Outcome.inTurn Filter.clone fs := by
  induction fs with
  | nil => rfl
  | cons f rest ih => simp [Filter.cloneEach, Outcome.inTurn, ih]

end BoardQuery
