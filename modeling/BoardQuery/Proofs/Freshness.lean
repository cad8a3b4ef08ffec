/-
Fresh trees.  A tree is fresh when all of its orbits are deferred.  Whatever is
built, cloned or transformed is fresh, and it was fresh to begin with: an
expanded orbit anywhere in a tree keeps the tree from being cloned, transformed
or expanded, and stays where it is.
-/
import BoardQuery.Filter.Clone
import BoardQuery.Proofs.Expansion

namespace BoardQuery

theorem Orbit.lastCount_of_isExpanded_eq_false {o : Orbit}
    (h : o.isExpanded = false) :
    o.lastCount = 0 := by
  cases o with
  | deferred ts criterion base => rfl
  | expanded ts criterion images count => simp [isExpanded] at h

namespace Filter

/-- `f.Holds o` says that the orbit is the tree itself or stands in it at some
depth. -/
inductive Holds : Filter → Orbit → Prop
  | self (o : Orbit) : Holds (.orbit o) o
  | part_all {parts : List Filter} {f : Filter} {o : Orbit} (hf : f ∈ parts)
      (h : Holds f o) :
      Holds (.all parts) o
  | part_any {parts : List Filter} {f : Filter} {o : Orbit} (hf : f ∈ parts)
      (h : Holds f o) :
      Holds (.any parts) o
  | base {ts : List Transform} {criterion : Option Criterion} {base : Filter}
      {o : Orbit}
      (h : Holds base o) : Holds (.orbit (.deferred ts criterion base)) o
  | image {ts : List Transform} {criterion : Option Criterion}
      {images : List Filter} {count : Nat}
      {f : Filter} {o : Orbit} (hf : f ∈ images) (h : Holds f o) :
      Holds (.orbit (.expanded ts criterion images count)) o

/-- Every orbit in the tree is deferred. -/
def Fresh (f : Filter) : Prop :=
  ∀ o, f.Holds o → o.isExpanded = false

theorem fresh_bit (mask : UInt32) : (bit mask).Fresh := by
  intro o h
  cases h

theorem fresh_scripted (label : String) (script : List Char) (current : Char) :
    (scripted label script current).Fresh := by
  intro o h
  cases h

theorem fresh_probe (traits : Traits) (cloneAs becomes : Option Blueprint) :
    (probe traits cloneAs becomes).Fresh := by
  intro o h
  cases h

theorem fresh_all {parts : List Filter} :
    (all parts).Fresh ↔ ∀ f ∈ parts, f.Fresh := by
  constructor
  · exact fun h f hf o ho => h o (.part_all hf ho)
  · intro h o ho
    cases ho with
    | part_all hf ho => exact h _ hf o ho

theorem fresh_any {parts : List Filter} :
    (any parts).Fresh ↔ ∀ f ∈ parts, f.Fresh := by
  constructor
  · exact fun h f hf o ho => h o (.part_any hf ho)
  · intro h o ho
    cases ho with
    | part_any hf ho => exact h _ hf o ho

theorem fresh_deferred {ts : List Transform} {criterion : Option Criterion}
    {base : Filter} :
    (orbit (.deferred ts criterion base)).Fresh ↔ base.Fresh := by
  constructor
  · exact fun h o ho => h o (.base ho)
  · intro h o ho
    cases ho with
    | self => rfl
    | base ho => exact h o ho

theorem fresh_chained {f : Filter} (h : f.Fresh) (depth : Nat) :
    (f.chained depth).Fresh := by
  induction depth with
  | zero => exact h
  | succ n ih => exact fresh_all.mpr (by simpa [chained] using ih)

theorem fresh_orbited {f : Filter} (h : f.Fresh) (ts : List Transform)
    (criterion : Option Criterion) (depth : Nat) :
    (f.orbited ts criterion depth).Fresh := by
  induction depth with
  | zero => exact h
  | succ n ih => exact fresh_deferred.mpr ih

theorem fresh_of_orbitedFrom {f g : Filter} {ts : List Transform}
    {source : CriterionSource} {depth : Nat} (hf : f.Fresh)
    (h : f.orbitedFrom ts source depth = .ok g) : g.Fresh := by
  unfold orbitedFrom at h
  split_ifs at h with hzero
  · obtain rfl := Except.ok.inj h
    exact hf
  · obtain ⟨criterion, _, rfl⟩ := exists_of_map_eq_ok h
    exact fresh_orbited hf ts criterion depth

end Filter

namespace Blueprint

mutual

theorem fresh_of_build : ∀ {b : Blueprint} {f : Filter}, b.build = .ok f → f.Fresh
  | .bit _, f, h => by
      obtain rfl := Except.ok.inj h
      exact Filter.fresh_bit _
  | .scripted _ _, f, h => by
      obtain rfl := Except.ok.inj h
      exact Filter.fresh_scripted _ _ _
  | .probe _ _ _, f, h => by
      obtain rfl := Except.ok.inj h
      exact Filter.fresh_probe _ _ _
  | .all parts, f, h => by
      rw [build] at h
      obtain ⟨fs, hfs, rfl⟩ := exists_of_map_eq_ok h
      exact Filter.fresh_all.mpr (fresh_of_buildEach hfs)
  | .any parts, f, h => by
      rw [build] at h
      obtain ⟨fs, hfs, rfl⟩ := exists_of_map_eq_ok h
      exact Filter.fresh_any.mpr (fresh_of_buildEach hfs)
  | .orbit ts source base, f, h => by
      rw [build] at h
      cases hbase : base.build with
      | error e => simp [hbase] at h
      | ok g =>
          simp only [hbase, Orbit.ofSource] at h
          obtain ⟨o, ho, rfl⟩ := exists_of_map_eq_ok h
          obtain ⟨criterion, _, rfl⟩ := exists_of_map_eq_ok ho
          exact Filter.fresh_deferred.mpr (fresh_of_build hbase)
  | .chain depth leaf, f, h => by
      rw [build] at h
      obtain ⟨g, hleaf, rfl⟩ := exists_of_map_eq_ok h
      exact Filter.fresh_chained (fresh_of_build hleaf) depth
  | .orbitChain depth ts source leaf, f, h => by
      rw [build] at h
      cases hleaf : leaf.build with
      | error e => simp [hleaf] at h
      | ok g =>
          simp only [hleaf] at h
          exact Filter.fresh_of_orbitedFrom (fresh_of_build hleaf) h

theorem fresh_of_buildEach :
    ∀ {bs : List Blueprint} {fs : List Filter}, buildEach bs = .ok fs →
      ∀ f ∈ fs, f.Fresh
  | [], fs, h => by
      obtain rfl := Except.ok.inj h
      simp
  | b :: rest, fs, h => by
      rw [buildEach] at h
      cases hfirst : b.build with
      | error e => simp [hfirst] at h
      | ok f =>
          simp only [hfirst] at h
          obtain ⟨gs, hrest, rfl⟩ := exists_of_map_eq_ok h
          exact List.forall_mem_cons.mpr ⟨fresh_of_build hfirst,
            fresh_of_buildEach hrest⟩

end

end Blueprint

namespace Filter

/-- What is common to the calls that make one tree out of another: leaves turn
into fresh trees, composites and deferred orbits pass the call on, and an
expanded orbit refuses it. -/
structure Copies (copy : Filter → Outcome Filter) : Prop where
  bit : ∀ {mask g}, (copy (.bit mask)).answer = .ok g → g.Fresh
  scripted : ∀ {label script current g},
    (copy (.scripted label script current)).answer = .ok g → g.Fresh
  probe : ∀ {traits cloneAs becomes g},
    (copy (.probe traits cloneAs becomes)).answer = .ok g → g.Fresh
  all : ∀ parts, copy (.all parts) = (Outcome.inTurn copy parts).map .all
  any : ∀ parts, copy (.any parts) = (Outcome.inTurn copy parts).map .any
  deferred : ∀ {ts criterion base g},
    (copy (.orbit (.deferred ts criterion base))).answer = .ok g →
    ∃ b, (copy base).answer = .ok b ∧ .orbit (.deferred ts criterion b) = g
  expanded : ∀ {ts criterion images count g},
    (copy (.orbit (.expanded ts criterion images count))).answer ≠ .ok g

/-- A tree that has a copy is fresh, and so is the copy. -/
theorem Copies.fresh {copy : Filter → Outcome Filter} (hcopy : Copies copy)
    (f : Filter) :
    ∀ g, (copy f).answer = .ok g → f.Fresh ∧ g.Fresh := by
  induction f using tree_induction with
  | bit mask => exact fun g h => ⟨fresh_bit mask, hcopy.bit h⟩
  | scripted label script current =>
      exact fun g h => ⟨fresh_scripted label script current, hcopy.scripted h⟩
  | probe traits cloneAs becomes =>
      exact fun g h => ⟨fresh_probe traits cloneAs becomes, hcopy.probe h⟩
  | all parts ih =>
      intro g h
      rw [hcopy.all] at h
      obtain ⟨gs, hgs, rfl⟩ := Outcome.answer_map_eq_ok h
      rw [fresh_all, fresh_all]
      exact Outcome.forall_of_answer_inTurn_eq_ok hgs ih
  | any parts ih =>
      intro g h
      rw [hcopy.any] at h
      obtain ⟨gs, hgs, rfl⟩ := Outcome.answer_map_eq_ok h
      rw [fresh_any, fresh_any]
      exact Outcome.forall_of_answer_inTurn_eq_ok hgs ih
  | deferred ts criterion base ih =>
      intro g h
      obtain ⟨b, hb, rfl⟩ := hcopy.deferred h
      rw [fresh_deferred, fresh_deferred]
      exact ih b hb
  | expanded ts criterion images count _ => exact fun g h => absurd h hcopy.expanded

theorem fresh_of_scriptedImage {label : String} {script : List Char} {t : Transform}
    {g : Filter} (h : scriptedImage label script t = .ok g) : g.Fresh := by
  unfold scriptedImage at h
  split at h
  · split at h <;> simp only [Except.ok.injEq, reduceCtorEq] at h
    exact h ▸ fresh_scripted _ _ _
  · simp at h

theorem fresh_of_probeImage {traits : Traits} {cloneAs becomes : Option Blueprint}
    {t : Transform} {g : Filter} (h : probeImage traits cloneAs becomes t = .ok g) :
    g.Fresh := by
  unfold probeImage at h
  split at h
  · simp at h
  · cases becomes with
    | none =>
        obtain rfl := Except.ok.inj h
        exact fresh_probe _ _ _
    | some blueprint => exact blueprint.fresh_of_build h

theorem fresh_of_probeClone {traits : Traits} {cloneAs becomes : Option Blueprint}
    {g : Filter} (h : probeClone traits cloneAs becomes = .ok g) : g.Fresh := by
  unfold probeClone at h
  split at h
  · simp at h
  · cases cloneAs with
    | none =>
        obtain rfl := Except.ok.inj h
        exact fresh_probe _ _ _
    | some blueprint => exact blueprint.fresh_of_build h

theorem copies_transform (t : Transform) : Copies (transform t) where
  bit := by
    intro mask g h
    simp only [transform] at h
    split at h <;> simp only [Except.ok.injEq, reduceCtorEq] at h
    exact h ▸ fresh_bit _
  scripted := fresh_of_scriptedImage
  probe := fresh_of_probeImage
  all := by
    intro parts
    rw [transform, transformEach_eq_inTurn]
  any := by
    intro parts
    rw [transform, transformEach_eq_inTurn]
  deferred := by
    intro ts criterion base g h
    rw [transform, Orbit.transform] at h
    obtain ⟨o, ho, rfl⟩ := Outcome.answer_map_eq_ok h
    obtain ⟨b, hb, rfl⟩ := Outcome.answer_map_eq_ok ho
    exact ⟨b, hb, rfl⟩
  expanded := by simp [transform, Orbit.transform, Outcome.map, Except.map]

theorem copies_clone : Copies clone where
  bit := by
    intro mask g h
    simp only [clone, Except.ok.injEq] at h
    exact h ▸ fresh_bit mask
  scripted := by
    intro label script current g h
    simp only [clone, scriptedClone] at h
    split at h <;> simp only [Except.ok.injEq, reduceCtorEq] at h
    exact h ▸ fresh_scripted label script current
  probe := fresh_of_probeClone
  all := by
    intro parts
    rw [clone, cloneEach_eq_inTurn]
  any := by
    intro parts
    rw [clone, cloneEach_eq_inTurn]
  deferred := by
    intro ts criterion base g h
    rw [clone, Orbit.clone] at h
    obtain ⟨o, ho, rfl⟩ := Outcome.answer_map_eq_ok h
    cases hb : base.clone.answer with
    | error e => simp [hb, Except.bind] at ho
    | ok b =>
        simp only [hb, Except.bind, Orbit.verified] at ho
        split at ho <;> simp only [Except.ok.injEq, reduceCtorEq] at ho
        exact ⟨b, rfl, congrArg orbit ho⟩
  expanded := by simp [clone, Orbit.clone, Outcome.map, Except.map]

/-- No copy is made of a tree that holds an expanded orbit. -/
theorem Copies.exists_error_of_holds {copy : Filter → Outcome Filter}
    (hcopy : Copies copy) {f : Filter} {o : Orbit} (h : f.Holds o)
    (hexpanded : o.isExpanded = true) :
    ∃ e, (copy f).answer = .error e := by
  apply Outcome.exists_error_of_ne_ok
  intro g hg
  have hdeferred := (hcopy.fresh f g hg).1 o h
  simp [hexpanded] at hdeferred

/-- An orbit around a tree that holds an expanded one does not expand, under
whatever transforms. -/
theorem expand_deferred_ne_ok {base : Filter} {o : Orbit} (h : base.Holds o)
    (hexpanded : o.isExpanded = true) (ts : List Transform)
    (criterion : Option Criterion) :
    (Orbit.deferred ts criterion base).expand.answer ≠ .ok () := by
  intro hok
  obtain ⟨made, hmade, husable, _⟩ := Orbit.expand_deferred_ok hok
  obtain ⟨g, hg⟩ := List.exists_mem_of_ne_nil _ husable
  obtain ⟨t, _, himage⟩ := hmade.exists_of_mem (mem_usable.mp hg).1
  obtain ⟨e, he⟩ := (copies_transform t).exists_error_of_holds h hexpanded
  simp [he] at himage

/-- A tree that holds an expanded orbit does not expand, and goes on holding
that orbit. -/
theorem expand_of_holds {f : Filter} {o : Orbit} (h : f.Holds o)
    (hexpanded : o.isExpanded = true) :
    f.expand.answer ≠ .ok () ∧ f.expand.subject.Holds o := by
  induction h with
  | self o =>
      cases o with
      | deferred ts criterion base => simp [Orbit.isExpanded] at hexpanded
      | expanded ts criterion images count =>
          rw [expand, Reply.on, Orbit.expand_expanded]
          exact ⟨by simp, .self _⟩
  | @part_all parts f o hf h ih =>
      obtain ⟨hfails, hstays⟩ := ih hexpanded
      constructor
      · rw [answer_expand_all]
        exact fun hall => hfails (Reply.done_askUntil_failed_iff.mp hall f hf)
      · rw [expand_all]
        rcases Reply.mem_subjects_or_mem hf with hasked | hleft
        · exact .part_all hasked hstays
        · exact .part_all hleft h
  | @part_any parts f o hf h ih =>
      obtain ⟨hfails, hstays⟩ := ih hexpanded
      constructor
      · rw [answer_expand_any]
        exact fun hall => hfails (Reply.done_askUntil_failed_iff.mp hall f hf)
      · rw [expand_any]
        rcases Reply.mem_subjects_or_mem hf with hasked | hleft
        · exact .part_any hasked hstays
        · exact .part_any hleft h
  | @base ts criterion base o h _ =>
      have hfails := expand_deferred_ne_ok h hexpanded ts criterion
      rw [expand, Reply.on]
      refine ⟨hfails, ?_⟩
      obtain ⟨e, he⟩ := Outcome.exists_error_of_ne_ok fun _ => hfails
      rw [Orbit.subject_expand_of_error he]
      exact .base h
  | @image ts criterion images count f o hf h _ =>
      rw [expand, Reply.on, Orbit.expand_expanded]
      exact ⟨by simp, .image hf h⟩

/-- Expanded orbits are neither copied nor expanded again, however deep they
stand in a tree.  A tree of which there is a clone or an image has only deferred
orbits, and so has the copy.  A tree that holds an expanded orbit has no clone
and no image; expanding it fails, and so does expanding an orbit around it,
which leaves that orbit as it was. -/
theorem expanded_never_duplicated :
    (∀ f g : Filter, (f.clone.answer = .ok g ∨ ∃ t,
      (f.transform t).answer = .ok g) →
      (∀ o, f.Holds o → o.isExpanded = false) ∧
        ∀ o, g.Holds o → o.isExpanded = false ∧ o.lastCount = 0) ∧
    ∀ (f : Filter) (o : Orbit), f.Holds o → o.isExpanded = true →
      (∃ e, f.clone.answer = .error e) ∧
        (∀ t, ∃ e, (f.transform t).answer = .error e) ∧
        ((∃ e, f.expand.answer = .error e) ∧ f.expand.subject.Holds o) ∧
          ∀ (ts : List Transform) (criterion : Option Criterion),
            let wrapper := Orbit.deferred ts criterion f
            (∃ e, wrapper.expand.answer = .error e) ∧
              wrapper.expand.subject = wrapper := by
  constructor
  · intro f g h
    have hfresh : f.Fresh ∧ g.Fresh := by
      rcases h with hclone | ⟨t, himage⟩
      · exact copies_clone.fresh f g hclone
      · exact (copies_transform t).fresh f g himage
    refine ⟨hfresh.1, fun o ho => ?_⟩
    have hdeferred := hfresh.2 o ho
    exact ⟨hdeferred, Orbit.lastCount_of_isExpanded_eq_false hdeferred⟩
  · intro f o h hexpanded
    refine ⟨copies_clone.exists_error_of_holds h hexpanded,
      fun t => (copies_transform t).exists_error_of_holds h hexpanded, ?_, ?_⟩
    · obtain ⟨hfails, hstays⟩ := expand_of_holds h hexpanded
      exact ⟨Outcome.exists_error_of_ne_ok fun _ => hfails, hstays⟩
    · intro ts criterion wrapper
      have hfails := expand_deferred_ne_ok h hexpanded ts criterion
      obtain ⟨e, he⟩ := Outcome.exists_error_of_ne_ok fun _ => hfails
      exact ⟨⟨e, he⟩, Orbit.subject_expand_of_error he⟩

/-- An expanded orbit as the base of a deferred one in a disjunction, and a
probe that turns into an orbit. -/
theorem expanded_never_duplicated_nested :
    let settled := Orbit.expanded [.shift 0] none [.bit 2] 1
    let tree := Filter.all
      [.bit 1, .any [.orbit (.deferred [.shift 1] none (.orbit settled))]]
    let leaf := Filter.probe {} none (some (.orbit [.shift 1] .absent (.bit 1)))
    let image := Filter.orbit (.deferred [.shift 1] none (.bit 1))
    tree.Holds settled ∧ (∃ e, tree.clone.answer = .error e) ∧
      (∃ e, (Orbit.deferred [] none tree).expand.answer = .error e) ∧
      (leaf.transform (.shift 2)).answer = .ok image ∧
      ∀ o, image.Holds o → o.isExpanded = false ∧ o.lastCount = 0 := by
  intro settled tree leaf image
  have hholds : tree.Holds settled :=
    .part_all (List.mem_cons_of_mem _ List.mem_cons_self)
      (.part_any List.mem_cons_self (.base (.self settled)))
  have hleaf : (leaf.transform (.shift 2)).answer = .ok image := by cbv
  obtain ⟨hcopies, hrefuses⟩ := expanded_never_duplicated
  obtain ⟨hclone, _, _, hwrapper⟩ := hrefuses tree settled hholds rfl
  exact ⟨hholds, hclone, (hwrapper [] none).1, hleaf,
    (hcopies leaf image (.inr ⟨.shift 2, hleaf⟩)).2⟩

end Filter

end BoardQuery
