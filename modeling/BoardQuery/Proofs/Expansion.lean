/-
Expansions.  An expansion can end in four ways, each with a reply of its own;
this is said once, and what a success does, what an answer means and that a
failure leaves the orbit as it was are read off.  The successes are then packed
into a rule of induction over everything that was expanded on the way.
-/
import BoardQuery.Filter.Expand
import BoardQuery.Proofs.Asking
import BoardQuery.Proofs.Tree

namespace BoardQuery

namespace Filter

def usable (fs : List Filter) : List Filter :=
  fs.filter fun f => !f.isDegenerate

theorem mem_usable {f : Filter} {fs : List Filter} :
    f ∈ usable fs ↔ f ∈ fs ∧ f.isDegenerate = false := by
  simp [usable]

/-- A filter is degenerate when some node of its tree has an empty square mask. -/
theorem isDegenerate_iff (f : Filter) :
    f.isDegenerate = true ↔ ∃ node ∈ f.outline.descendants,
      node.emptyMask = true := by
  rw [isDegenerate, Outline.hasEmptyMask_eq_any, List.any_eq_true]

theorem usable_eq_nil_iff {fs : List Filter} :
    usable fs = [] ↔ ∀ f ∈ fs, ∃ node ∈ f.outline.descendants,
      node.emptyMask = true := by
  simp [usable, ← isDegenerate_iff]

def expansion (f : Filter) : Filter :=
  f.expand.subject

end Filter

namespace Orbit

/-- What a base turns into under each of several transforms, when it has an
image under all. -/
def Images (base : Filter) (ts : List Transform) (made : List Filter) : Prop :=
  List.Forall₂ (fun t f => (base.transform t).answer = .ok f) ts made

/-- Every image is the image under one of the transforms. -/
theorem Images.exists_of_mem {base f : Filter} {ts : List Transform}
    {made : List Filter} (h : Images base ts made) (hf : f ∈ made) :
    ∃ t ∈ ts, (base.transform t).answer = .ok f := by
  induction h with
  | nil => simp at hf
  | @cons t g ts made hg _ ih =>
      rcases List.mem_cons.mp hf with rfl | hf
      · exact ⟨t, List.mem_cons_self, hg⟩
      · obtain ⟨u, hu, hanswer⟩ := ih hf
        exact ⟨u, List.mem_cons_of_mem t hu, hanswer⟩

theorem Images.height_le {base f : Filter} {ts : List Transform}
    {made : List Filter} (h : Images base ts made) (hf : f ∈ made) :
    f.height ≤ base.height := by
  obtain ⟨t, _, hanswer⟩ := h.exists_of_mem hf
  exact Filter.height_le_of_transform t hanswer

theorem answer_candidate (base : Filter) (t : Transform) (i : Nat) :
    (candidate base t i).answer =
      (base.transform t).answer.map fun f =>
        if f.isDegenerate then none else some f := by
  unfold candidate
  cases h : (base.transform t).answer with
  | error e => simp [h, Except.map]
  | ok f =>
      cases hf : f.isDegenerate <;> simp [h, hf, Except.map]

theorem exists_candidate {base f : Filter} {t : Transform}
    (h : (base.transform t).answer = .ok f) (i : Nat) :
    ∃ image, (candidate base t i).answer = .ok image :=
  ⟨if f.isDegenerate then none else some f, by
    simp [answer_candidate, h, Except.map]⟩

/-- What is journalled when the images of a base under several transforms are
drawn. -/
def drawing (base : Filter) (ts : List Transform) : Journal :=
  ts.zipIdx.flatMap fun (t, i) => (candidate base t i).journal

def expanding (fs : List Filter) : Journal :=
  fs.flatMap fun f => f.expand.journal

theorem journals_map_expand (fs : List Filter) :
    Reply.journals (fs.map Filter.expand) = expanding fs := by
  rw [Reply.journals, expanding, List.flatMap_map]

section Drawing

variable {base : Filter} {ts : List Transform} {made : List Filter} {i : Nat}
  {e : Error}

/-- A base has images under all transforms, or some transform is the first to
fail. -/
theorem images_or_firstFailure (base : Filter) (ts : List Transform) :
    (∃ made, Images base ts made) ∨
      ∃ i e, FirstFailure (fun t => (base.transform t).answer) ts i e := by
  rcases FirstFailure.all_ok_or (fun t => (base.transform t).answer) ts with
    hall | hfirst
  · left
    induction ts with
    | nil => exact ⟨[], .nil⟩
    | cons t rest ih =>
        obtain ⟨⟨f, hf⟩, hrest⟩ := List.forall_mem_cons.mp hall
        obtain ⟨made, hmade⟩ := ih hrest
        exact ⟨f :: made, .cons hf hmade⟩
  · exact .inr hfirst

theorem Images.exists_of_mem_transforms {t : Transform} (h : Images base ts made)
    (ht : t ∈ ts) :
    ∃ f, (base.transform t).answer = .ok f := by
  induction h with
  | nil => simp at ht
  | @cons u f ts made hf _ ih =>
      rcases List.mem_cons.mp ht with rfl | ht
      · exact ⟨f, hf⟩
      · exact ih ht

theorem take_zipIdx (ts : List Transform) (n : Nat) :
    ts.zipIdx.take n = (ts.take n).zipIdx := by
  apply List.ext_getElem?
  intro i
  simp only [List.getElem?_take, List.getElem?_zipIdx]
  split <;> simp

theorem candidates_of_firstFailure
    (h : FirstFailure (fun t => (base.transform t).answer) ts i e) :
    candidates base ts = ⟨.error e, drawing base (ts.take (i + 1))⟩ := by
  have hfirst :
      FirstFailure (fun p : Transform × Nat => (candidate base p.1 p.2).answer)
        ts.zipIdx i e := by
    obtain ⟨⟨t, ht, hfails⟩, hbefore⟩ := h
    refine ⟨⟨(t, i), by simp [List.getElem?_zipIdx, ht], ?_⟩, ?_⟩
    · simp [answer_candidate, hfails, Except.map]
    · rintro ⟨u, j⟩ hmem
      rw [take_zipIdx] at hmem
      obtain ⟨f, hf⟩ := hbefore u (List.fst_mem_of_mem_zipIdx hmem)
      exact exists_candidate hf j
  rw [candidates, hfirst.inTurn, take_zipIdx]
  rfl

/-- The candidates under transforms that all give an image are those of the
images. -/
theorem forall₂_candidate (h : Images base ts made) (n : Nat) :
    List.Forall₂ (fun p o => (candidate base p.1 p.2).answer = .ok o) (ts.zipIdx n)
      (made.map fun f => if f.isDegenerate then none else some f) := by
  induction h generalizing n with
  | nil => exact .nil
  | cons hf _ ih =>
      rw [List.zipIdx_cons, List.map_cons]
      exact .cons (by simp [answer_candidate, hf, Except.map]) (ih (n + 1))

/-- Drawing goes on to the last transform when there are all images. -/
theorem candidates_of_images (h : Images base ts made) :
    candidates base ts = ⟨.ok (Filter.usable made), drawing base ts⟩ := by
  have husable :
      (made.map fun f => if f.isDegenerate then none else some f).filterMap id =
        Filter.usable made := by
    rw [List.filterMap_map, Filter.usable, ← List.filterMap_eq_filter]
    apply List.filterMap_congr
    intro f _
    cases h : f.isDegenerate <;> simp [h, Option.guard]
  have hfound := Outcome.answer_inTurn_eq_ok.mpr (forall₂_candidate h 0)
  have hjournal : (candidates base ts).journal = drawing base ts := by
    rw [candidates, drawing, Outcome.map]
    apply Outcome.journal_inTurn_of_ok
    rintro ⟨t, i⟩ hmem
    obtain ⟨f, hf⟩ := h.exists_of_mem_transforms (List.fst_mem_of_mem_zipIdx hmem)
    exact exists_candidate hf i
  rw [← hjournal]
  simp only [candidates, Outcome.map, hfound, Except.map, husable]

end Drawing

section Ending

variable {ts : List Transform} {criterion : Option Criterion} {base : Filter}
  {made : List Filter} {i : Nat} {e : Error}

/-- A transform that fails is the end of the expansion. -/
theorem expand_of_transform_fails
    (h : FirstFailure (fun t => (base.transform t).answer) ts i e)
    (criterion : Option Criterion) :
    (deferred ts criterion base).expand =
      { subject := .deferred ts criterion base
        answer := .error e
        journal := drawing base (ts.take (i + 1)) } := by
  simp [expand_deferred, candidates_of_firstFailure h, drawn, settle,
    Reply.askUntil, Reply.journals]

/-- So is it when there are no images that can match. -/
theorem expand_of_all_degenerate (hmade : Images base ts made)
    (h : Filter.usable made = []) (criterion : Option Criterion) :
    (deferred ts criterion base).expand =
      { subject := .deferred ts criterion base
        answer := .error (.emptyExpansion ts.length)
        journal := drawing base ts } := by
  simp [expand_deferred, candidates_of_images hmade, h, drawn, settle,
    Reply.askUntil, Reply.journals]

theorem expand_of_image_fails (hmade : Images base ts made)
    (h : FirstFailure (fun f => f.expand.answer) (Filter.usable made) i e)
    (criterion : Option Criterion) :
    (deferred ts criterion base).expand =
      { subject := .deferred ts criterion base
        answer := .error e
        journal :=
          drawing base ts ++ expanding ((Filter.usable made).take (i + 1)) } := by
  obtain ⟨hasked, hanswers⟩ := h.askUntil
  rw [hasked] at hanswers
  have hne : Filter.usable made ≠ [] := by
    intro hnil
    obtain ⟨_, hfails, _⟩ := h.fails
    simp [hnil] at hfails
  simp only [expand_deferred, candidates_of_images hmade, drawn, settle, hasked,
    hanswers, journals_map_expand]

/-- Otherwise the images that can match take the place of the base, expanded
themselves. -/
theorem expand_of_images_expand (hmade : Images base ts made)
    (hne : Filter.usable made ≠ [])
    (h : ∀ f ∈ Filter.usable made, f.expand.answer = .ok ())
    (criterion : Option Criterion) :
    (deferred ts criterion base).expand =
      { subject := .expanded ts criterion
          ((Filter.usable made).map Filter.expansion) 0
        answer := .ok ()
        journal := drawing base ts ++ expanding (Filter.usable made) ++
          [.expanded (Filter.usable made).length ts.length base.className] } := by
  have hasked : Reply.askUntil Reply.failed Filter.expand (Filter.usable made) =
      (Filter.usable made).map Filter.expand :=
    Reply.askUntil_eq_map fun f hf => Reply.failed_of_ok (h f hf)
  simp only [expand_deferred, candidates_of_images hmade, drawn, settle, hasked,
    Reply.answers_map_of_ok h, journals_map_expand, List.map_map]
  rfl

/-- How the expansion of a deferred orbit can end, and with what reply. -/
inductive Ending (ts : List Transform) (criterion : Option Criterion)
    (base : Filter) :
    Reply Orbit Unit → Prop
  | transformFails {i : Nat} {e : Error}
      (h : FirstFailure (fun t => (base.transform t).answer) ts i e) :
      Ending ts criterion base
        { subject := .deferred ts criterion base
          answer := .error e
          journal := drawing base (ts.take (i + 1)) }
  | allDegenerate {made : List Filter} (hmade : Images base ts made)
      (h : ∀ f ∈ made, ∃ node ∈ f.outline.descendants, node.emptyMask = true) :
      Ending ts criterion base
        { subject := .deferred ts criterion base
          answer := .error (.emptyExpansion ts.length)
          journal := drawing base ts }
  | imageFails {made : List Filter} {i : Nat} {e : Error}
      (hmade : Images base ts made)
      (h : FirstFailure (fun f => f.expand.answer) (Filter.usable made) i e) :
      Ending ts criterion base
        { subject := .deferred ts criterion base
          answer := .error e
          journal :=
            drawing base ts ++ expanding ((Filter.usable made).take (i + 1)) }
  | expands {made : List Filter} (hmade : Images base ts made)
      (hne : Filter.usable made ≠ [])
      (h : ∀ f ∈ Filter.usable made, f.expand.answer = .ok ()) :
      Ending ts criterion base
        { subject := .expanded ts criterion
            ((Filter.usable made).map Filter.expansion) 0
          answer := .ok ()
          journal := drawing base ts ++ expanding (Filter.usable made) ++
            [.expanded (Filter.usable made).length ts.length base.className] }

/-- An expansion that ends in one of these ways ends with the reply that goes
with it. -/
theorem Ending.eq_expand {reply : Reply Orbit Unit}
    (h : Ending ts criterion base reply) :
    reply = (deferred ts criterion base).expand := by
  cases h with
  | transformFails h => exact (expand_of_transform_fails h criterion).symm
  | allDegenerate hmade h =>
      exact (expand_of_all_degenerate hmade (Filter.usable_eq_nil_iff.mpr h)
        criterion).symm
  | imageFails hmade h => exact (expand_of_image_fails hmade h criterion).symm
  | expands hmade hne h =>
      exact (expand_of_images_expand hmade hne h criterion).symm

theorem exists_ending (ts : List Transform) (criterion : Option Criterion)
    (base : Filter) :
    ∃ reply, Ending ts criterion base reply := by
  rcases images_or_firstFailure base ts with ⟨made, hmade⟩ | ⟨i, e, h⟩
  · by_cases hne : Filter.usable made = []
    · exact ⟨_, .allDegenerate hmade (Filter.usable_eq_nil_iff.mp hne)⟩
    · rcases FirstFailure.all_ok_or (fun f : Filter => f.expand.answer)
        (Filter.usable made)
        with hall | ⟨i, e, h⟩
      · exact ⟨_, .expands hmade hne fun f hf => (hall f hf).choose_spec⟩
      · exact ⟨_, .imageFails hmade h⟩
  · exact ⟨_, .transformFails h⟩

/-- Everything that a successful expansion of an orbit does: the base has all its
images, some of them can match, and those expand and take the place of the base. -/
theorem expand_deferred_ok
    (h : (deferred ts criterion base).expand.answer = .ok ()) :
    ∃ made, Images base ts made ∧ Filter.usable made ≠ [] ∧
      (∀ f ∈ Filter.usable made, f.expand.answer = .ok ()) ∧
      (deferred ts criterion base).expand.subject =
        .expanded ts criterion ((Filter.usable made).map Filter.expansion) 0 := by
  obtain ⟨reply, hending⟩ := exists_ending ts criterion base
  rw [← hending.eq_expand] at h ⊢
  cases hending with
  | expands hmade hne hok => exact ⟨_, hmade, hne, hok, rfl⟩
  | _ => simp at h

/-- What an orbit answers when it is told to expand and its base has all its
images. -/
theorem answer_expand_of_images (hmade : Images base ts made)
    (criterion : Option Criterion) :
    (deferred ts criterion base).expand.answer =
      if Filter.usable made = [] then .error (.emptyExpansion ts.length)
      else (Reply.answers (Reply.askUntil Reply.failed Filter.expand
        (Filter.usable made))).map
        fun _ => () := by
  by_cases hne : Filter.usable made = []
  · rw [if_pos hne, expand_of_all_degenerate hmade hne]
  · rw [if_neg hne]
    rcases FirstFailure.all_ok_or (fun f : Filter => f.expand.answer)
      (Filter.usable made)
      with hall | ⟨i, e, h⟩
    · have hok : ∀ f ∈ Filter.usable made, f.expand.answer = .ok () :=
        fun f hf => (hall f hf).choose_spec
      rw [expand_of_images_expand hmade hne hok,
        Reply.done_askUntil_failed_iff.mpr hok]
    · rw [expand_of_image_fails hmade h, h.askUntil.2]
      rfl

end Ending

theorem expand_expanded (ts : List Transform) (criterion : Option Criterion)
    (images : List Filter) (count : Nat) :
    (expanded ts criterion images count).expand =
      { subject := .expanded ts criterion images count
        answer := .error .alreadyExpanded } := by
  rw [expand]

/-- An expansion that fails leaves the orbit as it was. -/
theorem subject_expand_of_error {o : Orbit} {e : Error}
    (h : o.expand.answer = .error e) :
    o.expand.subject = o := by
  cases o with
  | expanded ts criterion images count => rw [expand_expanded]
  | deferred ts criterion base =>
      obtain ⟨reply, hending⟩ := exists_ending ts criterion base
      rw [← hending.eq_expand] at h ⊢
      cases hending with
      | expands _ _ _ => simp at h
      | _ => rfl

end Orbit

namespace Filter

theorem answer_expand_all (parts : List Filter) :
    (all parts).expand.answer =
      (Reply.answers (Reply.askUntil Reply.failed expand parts)).map fun _ =>
        () := by
  rw [expand_all]

theorem answer_expand_any (parts : List Filter) :
    (any parts).expand.answer =
      (Reply.answers (Reply.askUntil Reply.failed expand parts)).map fun _ =>
        () := by
  rw [expand_any]

theorem answer_expand_orbit (o : Orbit) :
    (orbit o).expand.answer = o.expand.answer := by
  rw [expand, Reply.on]

/-- A row of parts expands only when every part does. -/
theorem expandEach_ok {parts : List Filter} {dones : List Unit}
    (h : Reply.answers (Reply.askUntil Reply.failed expand parts) = .ok dones) :
    (∀ f ∈ parts, f.expand.answer = .ok ()) ∧
      Reply.subjects parts (Reply.askUntil Reply.failed expand parts) =
        parts.map expansion := by
  have hok : ∀ f ∈ parts, f.expand.answer = .ok () :=
    fun f hf => (Reply.exists_ok_of_answers_askUntil_failed h f hf).choose_spec
  refine ⟨hok, ?_⟩
  rw [Reply.askUntil_eq_map fun f hf => Reply.failed_of_ok (hok f hf),
    Reply.subjects_map]
  rfl

theorem expand_all_ok {parts : List Filter}
    (h : (all parts).expand.answer = .ok ()) :
    (∀ f ∈ parts, f.expand.answer = .ok ()) ∧
      (all parts).expansion = .all (parts.map expansion) := by
  rw [expand_all] at h
  rw [expansion, expand_all]
  cases hasked : Reply.answers (Reply.askUntil Reply.failed expand parts) with
  | error e => simp [hasked, Except.map] at h
  | ok dones =>
      obtain ⟨hok, hsubjects⟩ := expandEach_ok hasked
      exact ⟨hok, congrArg all hsubjects⟩

theorem expand_any_ok {parts : List Filter}
    (h : (any parts).expand.answer = .ok ()) :
    (∀ f ∈ parts, f.expand.answer = .ok ()) ∧
      (any parts).expansion = .any (parts.map expansion) := by
  rw [expand_any] at h
  rw [expansion, expand_any]
  cases hasked : Reply.answers (Reply.askUntil Reply.failed expand parts) with
  | error e => simp [hasked, Except.map] at h
  | ok dones =>
      obtain ⟨hok, hsubjects⟩ := expandEach_ok hasked
      exact ⟨hok, congrArg any hsubjects⟩

/-- Induction over a successful expansion: a property of filters and what they
expand to holds throughout if it holds of leaves, carries over from parts to
composites, and carries over from the images that can match to their orbit. -/
theorem expansion_induction {motive : Filter → Filter → Prop}
    (bit : ∀ mask, motive (.bit mask) (.bit mask))
    (scripted : ∀ label script current,
      motive (.scripted label script current) (.scripted label script current))
    (probe : ∀ traits cloneAs becomes,
      motive (.probe traits cloneAs becomes) (.probe traits cloneAs becomes))
    (all : ∀ parts : List Filter, (∀ f ∈ parts, motive f f.expansion) →
      motive (.all parts) (.all (parts.map expansion)))
    (any : ∀ parts : List Filter, (∀ f ∈ parts, motive f f.expansion) →
      motive (.any parts) (.any (parts.map expansion)))
    (orbit : ∀ ts criterion base made, Orbit.Images base ts made →
      usable made ≠ [] →
      (∀ f ∈ usable made, motive f f.expansion) →
      motive (.orbit (.deferred ts criterion base))
        (.orbit (.expanded ts criterion ((usable made).map expansion) 0)))
    (f : Filter) (h : f.expand.answer = .ok ()) : motive f f.expansion := by
  induction hheight : f.height using Nat.strongRecOn generalizing f with
  | ind n ih =>
      subst hheight
      cases f with
      | bit mask => simpa [expansion, expand] using bit mask
      | scripted label script current =>
          simpa [expansion, expand] using scripted label script current
      | probe traits cloneAs becomes =>
          simpa [expansion, expand] using probe traits cloneAs becomes
      | all parts =>
          obtain ⟨hparts, hexpansion⟩ := expand_all_ok h
          rw [hexpansion]
          apply all
          intro f hf
          have hlt : f.height < (Filter.all parts).height :=
            Nat.lt_succ_of_le (height_le_heightOfEach hf)
          exact ih f.height hlt f (hparts f hf) rfl
      | any parts =>
          obtain ⟨hparts, hexpansion⟩ := expand_any_ok h
          rw [hexpansion]
          apply any
          intro f hf
          have hlt : f.height < (Filter.any parts).height :=
            Nat.lt_succ_of_le (height_le_heightOfEach hf)
          exact ih f.height hlt f (hparts f hf) rfl
      | orbit o =>
          cases o with
          | expanded ts criterion images count =>
              simp [expand, Orbit.expand, Reply.on] at h
          | deferred ts criterion base =>
              rw [expand] at h
              obtain ⟨made, hmade, husable, hok, hsubject⟩ :=
                Orbit.expand_deferred_ok h
              rw [expansion, expand, Reply.on, hsubject]
              apply orbit ts criterion base made hmade husable
              intro f hf
              have hle := hmade.height_le (mem_usable.mp hf).1
              have hlt :
                  f.height < (Filter.orbit (.deferred ts criterion base)).height :=
                Nat.lt_succ_of_le hle
              exact ih f.height hlt f (hok f hf) rfl

end Filter

end BoardQuery
