/-
Images of filters under transforms.  A bit is moved by a shift and by nothing
else, a scripted leaf follows its script under symmetries, and a probe takes
any transform unless it refuses.  Composites and deferred orbits pass the
transform on; an expanded orbit has no image.
-/
import BoardQuery.Filter.Build
import BoardQuery.Reply

namespace BoardQuery

/-- The image of a scripted leaf: the same leaf at another character of its
script. -/
def Filter.scriptedImage (label : String) (script : List Char) (t : Transform) :
    Except Error Filter :=
  match t with
  | .symmetry i =>
      match script[i]? with
      | none | some 'T' => .error (.incompatibleTransform label t.label)
      | some c => .ok (.scripted label script c)
  | _ => .error (.incompatibleTransform label t.label)

/-- The image of a probe: what it becomes, or a copy that carries the transform
in its label. -/
def Filter.probeImage (traits : Traits) (cloneAs becomes : Option Blueprint)
    (t : Transform) :
    Except Error Filter :=
  if .transform ∈ traits.refuses then
    .error (.incompatibleTransform traits.label t.label)
  else
    match becomes with
    | some blueprint => blueprint.build
    | none =>
        let label := s!"{traits.label}/{t.label}"
        .ok (.probe { traits with label } cloneAs becomes)

mutual

def Filter.transform (t : Transform) : Filter → Outcome Filter
  | .bit mask =>
      match t with
      | .shift n => { answer := .ok (.bit (shiftMask mask n)) }
      | _ => { answer := .error (.incompatibleTransform "BitFilter" t.label) }
  | .scripted label script current =>
      ⟨Filter.scriptedImage label script t,
        [.called (.transform t) (Filter.scriptedName label current)]⟩
  | .probe traits cloneAs becomes =>
      ⟨Filter.probeImage traits cloneAs becomes t,
        [.called (.transform t) traits.label]⟩
  | .all parts => (Filter.transformEach t parts).map .all
  | .any parts => (Filter.transformEach t parts).map .any
  | .orbit o => (o.transform t).map .orbit

/-- The orbit of the base's image, with the same transforms and criterion. -/
def Orbit.transform (t : Transform) : Orbit → Outcome Orbit
  | .deferred ts criterion base => (base.transform t).map (.deferred ts criterion)
  | .expanded _ _ _ _ => { answer := .error .alreadyExpanded }

def Filter.transformEach (t : Transform) : List Filter → Outcome (List Filter)
  | [] => { answer := .ok [] }
  | f :: rest => (f.transform t).cons fun _ => Filter.transformEach t rest

end

@[simp] theorem Filter.transformEach_eq_inTurn (t : Transform) (fs : List Filter) :
    Filter.transformEach t fs = Outcome.inTurn (Filter.transform t) fs := by
  induction fs with
  | nil => rfl
  | cons f rest ih => simp [Filter.transformEach, Outcome.inTurn, ih]

end BoardQuery
