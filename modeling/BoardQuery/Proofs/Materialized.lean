/-
Materialized filters.  A successful expansion leaves no orbit deferred and no
empty square mask anywhere, and tests keep it so.  Hence no test of what was
expanded comes upon an orbit without images or upon a filter that cannot match.
-/
import BoardQuery.Proofs.Consultation
import BoardQuery.Proofs.Expansion

namespace BoardQuery

namespace Filter

/-- Every orbit has images, as many as transforms at most, and no square mask is
empty. -/
inductive Materialized : Filter → Prop
  | bit {mask : UInt32} (hmask : mask ≠ 0) : Materialized (.bit mask)
  | scripted {label : String} {script : List Char} {current : Char}
      (hcurrent : current ≠ 'D') :
      Materialized (.scripted label script current)
  | probe {traits : Traits} {cloneAs becomes : Option Blueprint}
      (htraits : traits.emptyMask = false) :
      Materialized (.probe traits cloneAs becomes)
  | all {parts : List Filter} (hparts : ∀ f ∈ parts, Materialized f) :
      Materialized (.all parts)
  | any {parts : List Filter} (hparts : ∀ f ∈ parts, Materialized f) :
      Materialized (.any parts)
  | orbit {ts : List Transform} {criterion : Option Criterion}
      {images : List Filter} {count : Nat}
      (hsome : 1 ≤ images.length) (hmost : images.length ≤ ts.length)
      (himages : ∀ f ∈ images, Materialized f) :
      Materialized (.orbit (.expanded ts criterion images count))

/-- `f.Asks board g` says that testing `f` comes to test `g`: it is `f` itself, or
one of the parts or images that are asked before the result is settled does. -/
inductive Asks (board : Board) : Filter → Filter → Prop
  | self (f : Filter) : Asks board f f
  | part_all {parts : List Filter} {f g : Filter}
      (hf : f ∈ parts.take (testUntil board Reply.settlesAll parts).length)
      (hg : Asks board f g) : Asks board (.all parts) g
  | part_any {parts : List Filter} {f g : Filter}
      (hf : f ∈ parts.take (testUntil board Reply.settlesAny parts).length)
      (hg : Asks board f g) : Asks board (.any parts) g
  | image {ts : List Transform} {criterion : Option Criterion}
      {images : List Filter} {count : Nat}
      {f g : Filter}
      (hf : f ∈
        images.take (testUntil board (Reply.settlesOrbit criterion) images).length)
      (hg : Asks board f g) :
      Asks board (.orbit (.expanded ts criterion images count)) g

namespace Materialized

variable {f g : Filter} {board : Board}

theorem isDegenerate_eq_false (h : f.Materialized) : f.isDegenerate = false := by
  induction h with
  | bit hmask => simpa using hmask
  | scripted hcurrent => simpa using hcurrent
  | probe htraits => simpa using htraits
  | all _ ih => simpa using ih
  | any _ ih => simpa using ih
  | orbit _ _ _ ih => simpa using ih

theorem emptyMask_eq_false (h : f.Materialized) : f.emptyMask = false := by
  cases h with
  | bit hmask => simpa [emptyMask] using hmask
  | scripted hcurrent => simpa [emptyMask] using hcurrent
  | probe htraits => simpa [emptyMask] using htraits
  | all _ => rfl
  | any _ => rfl
  | orbit _ _ _ => rfl

theorem of_asks (h : f.Materialized) (hg : f.Asks board g) : g.Materialized := by
  induction hg with
  | self f => exact h
  | part_all hf _ ih =>
      cases h with
      | all hparts => exact ih (hparts _ (List.mem_of_mem_take hf))
  | part_any hf _ ih =>
      cases h with
      | any hparts => exact ih (hparts _ (List.mem_of_mem_take hf))
  | image hf _ ih =>
      cases h with
      | orbit _ _ himages => exact ih (himages _ (List.mem_of_mem_take hf))

/-- Asking materialized filters leaves them materialized. -/
theorem of_mem_subjects {board : Board} {decides : Reply Filter Bool → Bool}
    {fs : List Filter} (h : ∀ f ∈ fs, f.Materialized)
    (ih : ∀ f ∈ fs, (f.test board).subject.Materialized) :
    ∀ f ∈ Reply.subjects fs (Reply.askUntil decides (test board) fs),
      f.Materialized := by
  intro f hf
  rcases Reply.mem_subjects_askUntil hf with ⟨g, hg, rfl⟩ | hf
  · exact ih g hg
  · exact h f hf

theorem test (h : f.Materialized) (board : Board) :
    (f.test board).subject.Materialized := by
  induction h with
  | bit hmask => exact .bit hmask
  | scripted hcurrent => exact .scripted hcurrent
  | probe htraits => exact .probe htraits
  | all hparts ih =>
      rw [test_all]
      exact .all (of_mem_subjects hparts ih)
  | any hparts ih =>
      rw [test_any]
      exact .any (of_mem_subjects hparts ih)
  | orbit hsome hmost himages ih =>
      rw [Filter.test, Orbit.test_expanded]
      refine .orbit ?_ ?_ (of_mem_subjects himages ih)
      · simpa using hsome
      · simpa using hmost

/-- The complaint of a scripted leaf is none about a missing expansion. -/
theorem match_ne_match_position (name : String) :
    s!"match {name}" ≠ "match_position" := by
  intro h
  have hsixth := congrArg (fun text => text.toList[5]?) h
  simp [String.toList_append, toString] at hsixth

/-- The test of a materialized filter never fails for want of an expansion. -/
theorem test_ne_notExpanded (h : f.Materialized) (board : Board) :
    (f.test board).answer ≠ .error (.notExpanded "match_position") := by
  induction h with
  | bit hmask => simp [Filter.test]
  | @scripted label script current hcurrent =>
      simp only [Filter.test, scriptedVerdict]
      split
      · intro hanswer
        simp only [Except.error.injEq, Error.notExpanded.injEq] at hanswer
        exact match_ne_match_position _ hanswer
      · simp
  | probe htraits =>
      simp only [Filter.test, probeVerdict]
      split <;> simp
  | all hparts ih =>
      intro hanswer
      rw [test_all] at hanswer
      obtain ⟨g, hg, hfailed⟩ := Reply.exists_of_map_answers_eq_error hanswer
      exact ih g hg hfailed
  | any hparts ih =>
      intro hanswer
      rw [test_any] at hanswer
      obtain ⟨g, hg, hfailed⟩ := Reply.exists_of_map_answers_eq_error hanswer
      exact ih g hg hfailed
  | orbit hsome hmost himages ih =>
      intro hanswer
      rw [Filter.test, Orbit.test_expanded] at hanswer
      obtain ⟨g, hg, hfailed⟩ := Reply.exists_of_map_answers_eq_error hanswer
      exact ih g hg hfailed

end Materialized

/-- The images that can match, once expanded, make a materialized orbit. -/
theorem Materialized.of_images {ts : List Transform} {criterion : Option Criterion}
    {base : Filter} {made : List Filter} (hmade : Orbit.Images base ts made)
    (husable : usable made ≠ []) (h : ∀ f ∈ usable made, f.expansion.Materialized) :
    (Filter.orbit (.expanded ts criterion ((usable made).map expansion)
      0)).Materialized := by
  have hlength : (usable made).length ≤ ts.length := by
    rw [hmade.length_eq]
    exact List.length_filter_le _ made
  refine .orbit ?_ ?_ ?_
  · rw [List.length_map]
    exact List.length_pos_iff.mpr husable
  · simpa using hlength
  · intro g hg
    obtain ⟨f, hf, rfl⟩ := List.mem_map.mp hg
    exact h f hf

/-- What a filter without empty square masks expands to is materialized. -/
theorem materialized_expansion {f : Filter} (h : f.expand.answer = .ok ()) :
    f.isDegenerate = false → f.expansion.Materialized := by
  apply expansion_induction (motive := fun f g => f.isDegenerate = false →
    g.Materialized)
    (h := h)
  case bit =>
    intro mask hmask
    exact .bit (by simpa using hmask)
  case scripted =>
    intro label script current hcurrent
    exact .scripted (by simpa using hcurrent)
  case probe =>
    intro traits cloneAs becomes htraits
    exact .probe (by simpa using htraits)
  case all =>
    intro parts ih hparts
    simp only [isDegenerate_all, List.any_eq_false] at hparts
    refine .all fun g hg => ?_
    obtain ⟨f, hf, rfl⟩ := List.mem_map.mp hg
    exact ih f hf (by simpa using hparts f hf)
  case any =>
    intro parts ih hparts
    simp only [isDegenerate_any, List.any_eq_false] at hparts
    refine .any fun g hg => ?_
    obtain ⟨f, hf, rfl⟩ := List.mem_map.mp hg
    exact ih f hf (by simpa using hparts f hf)
  case orbit =>
    intro ts criterion base made hmade husable ih _
    exact .of_images hmade husable fun f hf => ih f hf (mem_usable.mp hf).2

end Filter

namespace Orbit

theorem materialized_expand {ts : List Transform} {criterion : Option Criterion}
    {base : Filter} (h : (deferred ts criterion base).expand.answer = .ok ()) :
    (Filter.orbit (deferred ts criterion base).expand.subject).Materialized := by
  obtain ⟨made, hmade, husable, hok, hsubject⟩ := expand_deferred_ok h
  rw [hsubject]
  apply Filter.Materialized.of_images hmade husable
  intro f hf
  exact Filter.materialized_expansion (hok f hf) (Filter.mem_usable.mp hf).2

/-- A count of a materialized orbit never fails for want of an expansion. -/
theorem count_ne_notExpanded {o : Orbit} (h : (Filter.orbit o).Materialized)
    (board : Board) :
    (o.count board).answer ≠ .error (.notExpanded "match_position") := by
  have htest := h.test_ne_notExpanded board
  simp only [Filter.test, Reply.on] at htest
  unfold count
  cases o.criterion with
  | none => simp
  | some _ =>
      cases hanswer : (o.test board).answer with
      | ok verdict => simp [hanswer, Except.map]
      | error e =>
          rw [hanswer] at htest
          simpa [hanswer, Except.map] using htest

/-- Any number of tests and counts keep an orbit materialized. -/
theorem materialized_consultAll {o : Orbit} (h : (Filter.orbit o).Materialized)
    (calls : List Consultation) :
    (Filter.orbit (o.consultAll calls)).Materialized :=
  consultAll_induction (motive := fun o => (Filter.orbit o).Materialized)
    (fun _ board ho => ho.test board) h calls

/-- A successful expansion leaves the whole tree materialized and free of empty
square masks.  However often it is tested and counted afterwards, no test fails
for want of an expansion, at the root or below, and none comes to a filter with
an empty mask. -/
theorem expand_materializes {ts : List Transform} {criterion : Option Criterion}
    {base : Filter} (h : (deferred ts criterion base).expand.answer = .ok ()) :
    (Filter.orbit (deferred ts criterion base).expand.subject).Materialized ∧
      (deferred ts criterion base).expand.subject.outline.hasEmptyMask = false ∧
      ∀ (calls : List Consultation) (board : Board),
        let o := (deferred ts criterion base).expand.subject.consultAll calls
        (o.test board).answer ≠ .error (.notExpanded "match_position") ∧
        (o.count board).answer ≠ .error (.notExpanded "match_position") ∧
        ∀ g, (Filter.orbit o).Asks board g → g.emptyMask = false ∧
          (g.test board).answer ≠ .error (.notExpanded "match_position") := by
  have hroot :
      (Filter.orbit (deferred ts criterion base).expand.subject).Materialized :=
    materialized_expand h
  refine ⟨hroot, hroot.isDegenerate_eq_false, ?_⟩
  intro calls board
  have hlater := materialized_consultAll hroot calls
  refine ⟨?_, count_ne_notExpanded hlater board, ?_⟩
  · simpa [Filter.test, Reply.on] using hlater.test_ne_notExpanded board
  · intro g hg
    have hmaterialized := hlater.of_asks hg
    exact ⟨hmaterialized.emptyMask_eq_false,
      hmaterialized.test_ne_notExpanded board⟩

/-- A script that drops one image of three, over a probe that turns into an orbit
of which a shift off the board drops one image more. -/
theorem expand_materializes_nested :
    let inner := Blueprint.orbit [.shift 0, .shift 31, .shift 32] .absent (.bit 3)
    let o := deferred [.symmetry 0, .symmetry 1, .symmetry 2] none
      (.all [.scripted "s" ['M', 'D', 'E'] '-',
        .probe { emptyMask := true } none (some inner)])
    o.expand.answer = .ok () ∧ (Filter.orbit o.expand.subject).Materialized ∧
      o.expand.subject.outline.hasEmptyMask = false := by
  intro inner o
  have hexpand : o.expand.answer = .ok () := by cbv
  have hclean := expand_materializes hexpand
  exact ⟨hexpand, hclean.1, hclean.2.1⟩

end Orbit

end BoardQuery
