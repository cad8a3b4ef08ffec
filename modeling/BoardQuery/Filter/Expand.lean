/-
Expanding orbits.  The images of the base are drawn under all transforms first;
those that cannot match are left out, and the others are expanded in turn.  The
orbit is left as it was unless all of that succeeds.  Composites pass the call
on to their parts, of which some may be expanded when a later one fails.
-/
import BoardQuery.Filter.Height

namespace BoardQuery

/-- The image of a base under transform number `i`, or `none` if it cannot match. -/
def Orbit.candidate (base : Filter) (t : Transform) (i : Nat) :
    Outcome (Option Filter) :=
  let made := base.transform t
  match made.answer with
  | .error e => ⟨.error e, made.journal⟩
  | .ok f =>
      if f.isDegenerate then ⟨.ok none, made.journal ++ [.pruned i t]⟩
      else ⟨.ok (some f), made.journal⟩

/-- The images of a base that can match, in the order of the transforms. -/
def Orbit.candidates (base : Filter) (ts : List Transform) :
    Outcome (List Filter) :=
  (Outcome.inTurn (fun (t, i) => Orbit.candidate base t i) ts.zipIdx).map
    (List.filterMap id)

/-- The images that were drawn, none if drawing them failed. -/
def Orbit.drawn (candidates : Outcome (List Filter)) : List Filter :=
  match candidates.answer with
  | .ok images => images
  | .error _ => []

/-- The reply of a deferred orbit whose images were drawn and asked in turn to
expand, up to the first one that failed. -/
def Orbit.settle (ts : List Transform) (criterion : Option Criterion)
    (base : Filter) (candidates : Outcome (List Filter))
    (asked : List (Reply Filter Unit)) :
    Reply Orbit Unit :=
  let journal := candidates.journal ++ Reply.journals asked
  match candidates.answer, Reply.answers asked with
  | .error e, _ =>
      { subject := .deferred ts criterion base, answer := .error e, journal }
  | .ok [], _ =>
      { subject := .deferred ts criterion base
        answer := .error (.emptyExpansion ts.length)
        journal }
  | .ok _, .error e =>
      { subject := .deferred ts criterion base, answer := .error e, journal }
  | .ok images, .ok _ =>
      { subject := .expanded ts criterion (asked.map Reply.subject) 0
        answer := .ok ()
        journal := journal ++ [.expanded images.length ts.length base.className] }

/-- The reply of a scripted leaf, which refuses at the character `X`. -/
def Filter.scriptedExpand (label : String) (current : Char) : Except Error Unit :=
  if current = 'X' then
    .error (.invalidConfiguration s!"expand {Filter.scriptedName label current}")
  else .ok ()

def Filter.probeExpand (traits : Traits) : Except Error Unit :=
  if .expand ∈ traits.refuses then
    .error (.invalidConfiguration s!"expand {traits.label}")
  else .ok ()

theorem Orbit.height_le_of_mem_drawn {base f : Filter} {ts : List Transform}
    (h : f ∈ Orbit.drawn (Orbit.candidates base ts)) : f.height ≤ base.height := by
  unfold Orbit.drawn at h
  split at h
  · next images hanswer =>
      obtain ⟨found, hfound, rfl⟩ := Outcome.answer_map_eq_ok hanswer
      have hmem : some f ∈ found := by simpa using h
      clear h hanswer
      generalize ts.zipIdx = numbered at hfound
      induction numbered generalizing found with
      | nil =>
          simp only [Outcome.inTurn, Except.ok.injEq] at hfound
          simp [← hfound] at hmem
      | cons pair rest ih =>
          obtain ⟨a, more, ha, hmore, rfl⟩ := Outcome.answer_cons_eq_ok hfound
          rcases List.mem_cons.mp hmem with rfl | hmem
          · unfold Orbit.candidate at ha
            simp only at ha
            split at ha
            · simp at ha
            · next g hg =>
                split at ha <;> simp only [Except.ok.injEq, Option.some.injEq,
                  reduceCtorEq] at ha
                exact ha ▸ Filter.height_le_of_transform pair.1 hg
          · exact ih more hmem hmore
  · simp at h

mutual

def Filter.expand (f : Filter) : Reply Filter Unit :=
  match f with
  | .bit mask => { subject := .bit mask, answer := .ok () }
  | .scripted label script current =>
      { subject := .scripted label script current
        answer := Filter.scriptedExpand label current
        journal := [.called .expand (Filter.scriptedName label current)] }
  | .probe traits cloneAs becomes =>
      { subject := .probe traits cloneAs becomes
        answer := Filter.probeExpand traits
        journal := [.called .expand traits.label] }
  | .all parts =>
      let asked := Reply.askUntil Reply.failed (fun f => f.1.expand) parts.attach
      { subject := .all (Reply.subjects parts asked)
        answer := (Reply.answers asked).map fun _ => ()
        journal := Reply.journals asked }
  | .any parts =>
      let asked := Reply.askUntil Reply.failed (fun f => f.1.expand) parts.attach
      { subject := .any (Reply.subjects parts asked)
        answer := (Reply.answers asked).map fun _ => ()
        journal := Reply.journals asked }
  | .orbit o => o.expand.on .orbit
termination_by (f.height, 1)
decreasing_by
  · have := Filter.height_le_heightOfEach f.2
    simp only [Filter.height, Prod.lex_def]
    omega
  · have := Filter.height_le_heightOfEach f.2
    simp only [Filter.height, Prod.lex_def]
    omega
  · simp [Filter.height, Prod.lex_def]

/-- Expands an orbit, and the orbits below its images. -/
def Orbit.expand (o : Orbit) : Reply Orbit Unit :=
  match o with
  | .deferred ts criterion base =>
      let candidates := Orbit.candidates base ts
      Orbit.settle ts criterion base candidates
        (Reply.askUntil Reply.failed (fun f => f.1.expand)
          (Orbit.drawn candidates).attach)
  | .expanded ts criterion images count =>
      { subject := .expanded ts criterion images count
        answer := .error .alreadyExpanded }
termination_by (o.height, 0)
decreasing_by
  have := Orbit.height_le_of_mem_drawn f.2
  simp only [Orbit.height, Prod.lex_def]
  omega

end

theorem Filter.expand_all (parts : List Filter) :
    (Filter.all parts).expand =
      let asked := Reply.askUntil Reply.failed Filter.expand parts
      { subject := .all (Reply.subjects parts asked)
        answer := (Reply.answers asked).map fun _ => ()
        journal := Reply.journals asked } := by
  rw [Filter.expand]
  simp

theorem Filter.expand_any (parts : List Filter) :
    (Filter.any parts).expand =
      let asked := Reply.askUntil Reply.failed Filter.expand parts
      { subject := .any (Reply.subjects parts asked)
        answer := (Reply.answers asked).map fun _ => ()
        journal := Reply.journals asked } := by
  rw [Filter.expand]
  simp

theorem Orbit.expand_deferred (ts : List Transform) (criterion : Option Criterion)
    (base : Filter) :
    (Orbit.deferred ts criterion base).expand =
      let candidates := Orbit.candidates base ts
      Orbit.settle ts criterion base candidates
        (Reply.askUntil Reply.failed Filter.expand (Orbit.drawn candidates)) := by
  rw [Orbit.expand]
  simp

end BoardQuery
