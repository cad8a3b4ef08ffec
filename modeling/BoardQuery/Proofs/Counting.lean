/-
Stopping at the first match.  An orbit without a criterion stops as soon as an
image matches, and one that asks for one match at least goes through all of its
images.  Writing that criterion out in a tree keeps every verdict that the tree
comes to; it only brings in the failures behind the first match.
-/
import BoardQuery.Proofs.SpelledOut
import BoardQuery.Proofs.Unfailing

namespace BoardQuery

namespace Orbit

variable {board : Board} {ts ts' : List Transform}
  {criterion criterion' : Option Criterion}
  {images images' : List Filter} {b : Bool}

/-- One match at least is what an orbit without a criterion asks for. -/
theorem enough_spelledOut (matching : Nat) :
    enough (Criterion.spelledOut none) matching = enough none matching := by
  simp [enough, Criterion.spelledOut, Criterion.accepts, CountRange.accepts,
    CountRange.atLeast, Nat.succ_le_iff]

/-- An orbit without a criterion comes to the verdict that one match at least
comes to, and counts one match instead of all. -/
theorem test_of_test_spelledOut {count count' : Nat}
    (h : ((expanded ts (Criterion.spelledOut none) images count').test
      board).answer = .ok b) :
    let stopped := (expanded ts none images count).test board
    let counted' :=
      (expanded ts (Criterion.spelledOut none) images count').test board
    stopped.answer = .ok b ∧
      stopped.subject.lastCount = counted none counted'.subject.lastCount := by
  have hrow := h
  rw [test_expanded] at hrow
  obtain ⟨bs, hbs, _⟩ := exists_of_map_eq_ok hrow
  have hanswers := Reply.exists_ok_of_answers_askUntil_failed hbs
  obtain ⟨hcounted, hcount⟩ :=
    test_of_answers hanswers ts (Criterion.spelledOut none) count'
  obtain ⟨hstopped, hstop⟩ := test_of_answers hanswers ts none count
  refine ⟨?_, by rw [hcount, hstop]; rfl⟩
  rw [hstopped, ← enough_spelledOut, ← hcounted, h]

/-- An orbit follows another one when its images follow the other's and an
absent criterion is all that is written out. -/
theorem test_of_follows (horbit : SpellsOut ts criterion ts' criterion')
    (himages : List.Forall₂ (Filter.Follows board) images images')
    (count count' : Nat)
    (h : ((expanded ts' criterion' images' count').test board).answer = .ok b) :
    let r := (expanded ts criterion images count).test board
    let r' := (expanded ts' criterion' images' count').test board
    r.answer = .ok b ∧ r.subject.lastCount =
      counted criterion r'.subject.lastCount := by
  obtain ⟨rfl, hcriterion⟩ := horbit
  have hfollowed : ((expanded ts' criterion' images count).test board).answer =
      .ok b ∧
        ((expanded ts' criterion' images count).test board).subject.lastCount =
          ((expanded ts' criterion' images' count').test
            board).subject.lastCount := by
    simp only [test_expanded] at h ⊢
    obtain ⟨bs, hbs, hb⟩ := exists_of_map_eq_ok h
    have hbs' :=
      Reply.answers_askUntil_of_forall₂ (Reply.heedsAnswers_settlesOrbit criterion')
      himages.flip bs hbs
    refine ⟨by rw [hbs', Except.map, hb], ?_⟩
    simp only [lastCount, Reply.matching_of_answers hbs,
      Reply.matching_of_answers hbs']
  obtain ⟨hanswer, hlast⟩ := hfollowed
  rcases hcriterion with rfl | ⟨rfl, rfl⟩
  · refine ⟨hanswer, ?_⟩
    cases criterion' with
    | none =>
        rw [← hlast, test_expanded]
        exact (Nat.min_eq_right
          (Reply.matching_askUntil_settlesAny_le _ images)).symm
    | some k => exact hlast
  · simp only [← hlast]
    exact test_of_test_spelledOut hanswer

end Orbit

namespace Filter

namespace Variant

variable {board : Board} {f g : Filter}

/-- A tree follows the one with some of its criteria written out. -/
theorem follows (h : Variant SpellsOut f g) : Follows board f g := by
  induction h with
  | same f => exact fun _ => id
  | all hlength _ ih => exact .all (List.forall₂_iff_zip.mpr ⟨hlength, ih _ _⟩)
  | any hlength _ ih => exact .any (List.forall₂_iff_zip.mpr ⟨hlength, ih _ _⟩)
  | deferred _ _ _ => exact fun _ => id
  | @expanded _ _ _ _ _ _ count horbit hlength _ ih =>
      have himages := List.forall₂_iff_zip.mpr ⟨hlength, ih _ _⟩
      exact fun b hb => (Orbit.test_of_follows horbit himages count count hb).1
  | becomes _ _ _ _ => exact fun _ => id
  | breaks _ _ => exact fun _ => id

/-- The root of a tree counts what it would with its criterion written out, up
to the match that it stops at. -/
theorem lastCount_eq {o o' : Orbit} (h : Variant SpellsOut (.orbit o) (.orbit o'))
    {b : Bool} (hb : (o'.test board).answer = .ok b) :
    (o.test board).subject.lastCount =
      Orbit.counted o.criterion (o'.test board).subject.lastCount := by
  cases h with
  | same _ =>
      cases o with
      | deferred ts criterion base => simp [Orbit.test] at hb
      | expanded ts criterion images count =>
          have himages : List.Forall₂ (Follows board) images images :=
            List.forall₂_same.mpr fun _ _ _ => id
          exact (Orbit.test_of_follows ⟨rfl, .inl rfl⟩ himages _ _ hb).2
  | deferred _ _ => simp [Orbit.test] at hb
  | @expanded _ _ _ _ images images' _ horbit hlength himages =>
      have hfollows : List.Forall₂ (Follows board) images images' :=
        List.forall₂_iff_zip.mpr ⟨hlength, fun hfg => (himages _ _ hfg).follows⟩
      exact (Orbit.test_of_follows horbit hfollows _ _ hb).2

theorem settled (h : Variant SpellsOut f g) : f.Settled → g.Settled := by
  refine h.forall_mem_nodes fun f g hfg hf o ho => ?_
  subst ho
  cases hfg with
  | same _ => exact hf _ rfl
  | deferred _ _ => exact absurd (hf _ rfl) (by simp [Orbit.isExpanded])
  | expanded _ _ _ => rfl

theorem unfailing (h : Variant SpellsOut f g) :
    f.Unfailing board → g.Unfailing board := by
  refine h.forall_mem_nodes fun f g hfg hf hleaf => ?_
  cases hfg with
  | same _ => exact hf hleaf
  | all _ _ => simp [isLeaf] at hleaf
  | any _ _ => simp [isLeaf] at hleaf
  | deferred _ _ => simp [isLeaf] at hleaf
  | expanded _ _ _ => simp [isLeaf] at hleaf
  | becomes _ _ _ => exact hf rfl
  | breaks _ _ => exact hf rfl

end Variant

/-- What stopping at the first match keeps: every verdict of the counting tree,
the count at the root up to the first match, and all answers where no leaf can
fail. -/
structure Shortens (board : Board) (f g : Filter) : Prop where
  follows : Follows board f g
  lastCount_eq : ∀ o o', f = .orbit o → g = .orbit o' →
    ∀ b, (o'.test board).answer = .ok b →
    (o.test board).subject.lastCount =
      Orbit.counted o.criterion (o'.test board).subject.lastCount
  answer_eq : f.Settled → f.Unfailing board →
    (g.test board).answer = (f.test board).answer

theorem Variant.shortens {f g : Filter} (h : Variant SpellsOut f g)
    (board : Board) :
    Shortens board f g := by
  refine ⟨h.follows, ?_, fun hsettled hleaves => ?_⟩
  · rintro o o' rfl rfl b hb
    exact h.lastCount_eq hb
  · obtain ⟨b, hb⟩ := (h.settled hsettled).exists_answer (h.unfailing hleaves)
    rw [hb, h.follows b hb]

theorem nodes_forget (f : Filter) : f.forget.nodes = f.nodes.map forget := by
  have heach : ∀ fs : List Filter, (∀ f ∈ fs, f.forget.nodes = f.nodes.map forget) →
      (fs.map forget).flatMap nodes = (fs.flatMap nodes).map forget := by
    intro fs ih
    rw [List.flatMap_map, List.map_flatMap]
    exact List.flatMap_congr ih
  induction f using tree_induction with
  | bit mask => rfl
  | scripted label script current => rfl
  | probe traits cloneAs becomes => rfl
  | all parts ih => simp [forget, heach parts ih]
  | any parts ih => simp [forget, heach parts ih]
  | deferred ts criterion base ih => simp [forget, Orbit.forget, ih]
  | expanded ts criterion images count ih =>
      simp [forget, Orbit.forget, heach images ih]

theorem settled_forget (f : Filter) : f.forget.Settled ↔ f.Settled := by
  rw [Settled, nodes_forget, List.forall_mem_map]
  refine forall₂_congr fun g _ => ?_
  cases g with
  | orbit o => simp [forget, Orbit.isExpanded_forget]
  | _ => simp [forget]

theorem unfailing_forget (board : Board) (f : Filter) :
    f.forget.Unfailing board ↔ f.Unfailing board := by
  rw [Unfailing, nodes_forget, List.forall_mem_map]
  refine forall₂_congr fun g _ => ?_
  rw [congrArg Outcome.answer (test_forget board g)]
  cases g <;> rfl

/-- A tree that differs in counts only from one with an orbit at its root has
one there too. -/
theorem exists_orbit_of_forget_eq {o : Orbit} {f : Filter}
    (h : (orbit o).forget = f.forget) :
    ∃ o', f = .orbit o' ∧ o.forget = o'.forget := by
  cases f with
  | orbit o' => exact ⟨o', rfl, Filter.orbit.inj h⟩
  | _ => simp [forget] at h

/-- The counts of last tests, which are all that earlier tests leave behind,
have no part in it. -/
theorem Shortens.of_forget_eq {board : Board} {f g f' g' : Filter}
    (h : Shortens board f g) (hf : f'.forget = f.forget)
    (hg : g'.forget = g.forget) : Shortens board f' g' := by
  have hf_answer := answer_test_of_forget_eq hf board
  have hg_answer := answer_test_of_forget_eq hg board
  refine ⟨fun b hb => ?_, ?_, fun hsettled hleaves => ?_⟩
  · rw [hf_answer]
    exact h.follows b (hg_answer ▸ hb)
  · rintro o' p' rfl rfl b hb
    obtain ⟨o, rfl, ho⟩ := exists_orbit_of_forget_eq hf
    obtain ⟨p, rfl, hp⟩ := exists_orbit_of_forget_eq hg
    rw [← o'.lastCount_subject_test_forget, ← p'.lastCount_subject_test_forget,
      ← o'.criterion_forget, ho, hp, o.lastCount_subject_test_forget,
      p.lastCount_subject_test_forget, o.criterion_forget]
    exact h.lastCount_eq o p rfl rfl b (hg_answer.symm.trans hb)
  · rw [hf_answer, hg_answer]
    rw [← settled_forget, hf, settled_forget] at hsettled
    rw [← unfailing_forget, hf, unfailing_forget] at hleaves
    exact h.answer_eq hsettled hleaves

/-- Writing out the criterion that an orbit without one stands for, at any depth
and, if `deep`, also in what probes turn into, changes nothing about whether and
why the tree fails to expand.  Whatever tests were made before on either tree,
expanded or as it was given, stopping at the first match keeps the verdicts and,
up to the first match, the count of counting all. -/
theorem spelledOut_shortens (deep : Bool) (f : Filter) :
    (f.spelledOut deep).expand.answer = f.expand.answer ∧
    (∀ g g', g.forget = f.forget → g'.forget = (f.spelledOut deep).forget →
      ∀ board, Shortens board g g') ∧
    (f.expand.answer = .ok () →
      ∀ g g', g.forget = f.expansion.forget →
        g'.forget = (f.spelledOut deep).expansion.forget →
        g.Settled ∧ ∀ board, Shortens board g g') := by
  have hvariant := variant_spelledOut deep f
  have hexpand := hvariant.expandAlike
  refine ⟨hexpand.eq_of_unit, ?_, fun hf g g' hg hg' => ⟨?_, ?_⟩⟩
  · intro g g' hg hg' board
    exact (hvariant.shortens board).of_forget_eq hg hg'
  · rw [← settled_forget, hg, settled_forget]
    exact settled_expansion hf
  · intro board
    rw [ExpandAlike, hf] at hexpand
    obtain ⟨_, _, hexpansion⟩ := hexpand.exists_right
    exact (hexpansion.shortens board).of_forget_eq hg hg'

/-- Behind the first match there may be an image that fails, which counting all
of them meets. -/
example :
    let f :=
      orbit (.deferred [.symmetry 0, .symmetry 1] none
      (.scripted "leaf" ['M', 'E'] '-'))
    (f.expansion.test 1).answer = .ok true ∧
      ((f.spelledOut true).expansion.test 1).answer =
        .error (.notExpanded "match leaf:E") := by
  exact ⟨by cbv, by cbv⟩

end Filter

end BoardQuery
