/-
The order of transforms.  Permuting the transforms of orbits, in each by its own
permutation, changes in what order images are drawn, expanded and tested, and so
which failure is met first.  It does not change whether a tree expands, and
where no leaf can fail it changes neither the verdict nor the number of images
that match.
-/
import BoardQuery.Proofs.Unfailing
import BoardQuery.Proofs.Variation
import Mathlib.Data.List.Induction
import Mathlib.Data.List.Perm.Basic

namespace BoardQuery

/-- The transforms are permuted and the criterion stays. -/
def Reordered (ts : List Transform) (criterion : Option Criterion)
    (ts' : List Transform) (criterion' : Option Criterion) : Prop :=
  ts.Perm ts' ∧ criterion' = criterion

theorem Reordered.refl (ts : List Transform) (criterion : Option Criterion) :
    Reordered ts criterion ts criterion :=
  ⟨.refl ts, rfl⟩

theorem Reordered.symm {ts ts' : List Transform}
    {criterion criterion' : Option Criterion}
    (h : Reordered ts criterion ts' criterion') :
    Reordered ts' criterion' ts criterion :=
  ⟨h.1.symm, h.2.symm⟩

namespace Orbit

theorem Images.of_perm {base : Filter} {ts ts' : List Transform}
    {made : List Filter} (h : Images base ts made) (hts : ts.Perm ts') :
    ∃ made', Images base ts' made' ∧ made'.Perm made :=
  List.perm_comp_forall₂ hts.symm h

end Orbit

namespace Filter

/-- Trees that agree about a board come to the same verdict and, if they are
orbits, count the same number of images and have the same criterion. -/
structure Agree (board : Board) (f g : Filter) : Prop where
  follows : Follows board g f
  orbits : ∀ o o', f = .orbit o → g = .orbit o' → o'.criterion = o.criterion ∧
    (o'.test board).subject.lastCount = (o.test board).subject.lastCount

/-- What a tree was expanded to carries over to another tree: that expands too,
and the two expansions agree about every board on which no leaf fails. -/
def CarriesOver (expanded g : Filter) : Prop :=
  g.expand.answer = .ok () ∧
    ∀ board, expanded.Unfailing board → Agree board expanded g.expansion

theorem Agree.refl (board : Board) (f : Filter) : Agree board f f := by
  refine ⟨fun b => id, ?_⟩
  rintro o o' rfl ⟨⟩
  exact ⟨rfl, rfl⟩

theorem Agree.of_follows {board : Board} {f g : Filter} (h : Follows board g f)
    (hf : ∀ o, f ≠ .orbit o) : Agree board f g :=
  ⟨h, fun o _ ho _ => absurd ho (hf o)⟩

section Row

variable {fs gs : List Filter}
  (h : List.Forall₂ (fun f g => CarriesOver f.expansion g) fs gs)
include h

theorem forall_expand_of_carriesOver : ∀ g ∈ gs, g.expand.answer = .ok () := by
  induction h with
  | nil => simp
  | cons hfg _ ih => exact List.forall_mem_cons.mpr ⟨hfg.1, ih⟩

theorem forall₂_follows_of_carriesOver {board : Board}
    (hleaves : ∀ f ∈ fs.map expansion, f.Unfailing board) :
    List.Forall₂ (Follows board) (gs.map expansion) (fs.map expansion) := by
  induction h with
  | nil => exact .nil
  | cons hfg _ ih =>
      obtain ⟨hf, hfs⟩ := List.forall_mem_cons.mp hleaves
      exact .cons (hfg.2 board hf).follows (ih hfs)

end Row

theorem matching_of_ok {board : Board} {f : Filter} {b : Bool}
    (h : (f.test board).answer = .ok b) : f.matching board = b := by
  rw [matching, Reply.gave_of_ok h, beq_true]

theorem countP_matching_of_follows {board : Board} {fs gs : List Filter}
    (h : List.Forall₂ (Follows board) gs fs)
    (hanswers : ∀ f ∈ fs, ∃ b, (f.test board).answer = .ok b) :
    (∀ g ∈ gs, ∃ b, (g.test board).answer = .ok b) ∧
      gs.countP (matching board) = fs.countP (matching board) := by
  induction h with
  | nil => simp
  | @cons g f gs fs hgf _ ih =>
      obtain ⟨⟨b, hf⟩, hfs⟩ := List.forall_mem_cons.mp hanswers
      obtain ⟨hgs, hcount⟩ := ih hfs
      have hg := hgf b hf
      refine ⟨List.forall_mem_cons.mpr ⟨⟨b, hg⟩, hgs⟩, ?_⟩
      rw [List.countP_cons, List.countP_cons, hcount, matching_of_ok hf,
        matching_of_ok hg]

end Filter

/-- Orbits whose images are permuted and follow each other come to the same
verdict and count. -/
theorem Orbit.agree_of_perm {board : Board} {images images' row : List Filter}
    (hanswers : ∀ f ∈ images, ∃ b, (f.test board).answer = .ok b)
    (hrow : List.Forall₂ (Filter.Follows board) row images)
    (hperm : images'.Perm row) (ts ts' : List Transform)
    (criterion : Option Criterion) (count count' : Nat) :
    Filter.Agree board (.orbit (.expanded ts criterion images count))
      (.orbit (.expanded ts' criterion images' count')) := by
  obtain ⟨hanswers', hcount⟩ := Filter.countP_matching_of_follows hrow hanswers
  have htest := test_of_answers hanswers ts criterion count
  have htest' :=
    test_of_answers (fun f hf => hanswers' f (hperm.mem_iff.mp hf)) ts' criterion
    count'
  rw [hperm.countP_eq, hcount] at htest'
  refine ⟨fun b hb => htest'.1.trans (htest.1.symm.trans hb), ?_⟩
  rintro o o' ⟨⟩ ⟨⟩
  exact ⟨rfl, htest'.2.trans htest.2.symm⟩

namespace Filter

/-- What an orbit was expanded to carries over when what its images were
expanded to does, to images that are there in any order. -/
theorem carriesOver_orbit {ts ts' : List Transform} {criterion : Option Criterion}
    {base' : Filter} {made made' row : List Filter}
    (hmade' : Orbit.Images base' ts' made') (hne : made ≠ [])
    (hok : ∀ f ∈ made, f.expand.answer = .ok ())
    (hrow : List.Forall₂ (fun f g => CarriesOver f.expansion g) made row)
    (hperm : (usable made').Perm row) :
    CarriesOver (.orbit (.expanded ts criterion (made.map expansion) 0))
      (.orbit (.deferred ts' criterion base')) := by
  have hok' : ∀ g ∈ usable made', g.expand.answer = .ok () := fun g hg =>
    forall_expand_of_carriesOver hrow g (hperm.mem_iff.mp hg)
  have hne' : usable made' ≠ [] := by
    intro hnil
    rw [hnil, List.nil_perm] at hperm
    rw [hperm, List.forall₂_nil_right_iff] at hrow
    exact hne hrow
  have hexpand := Orbit.expand_of_images_expand hmade' hne' hok' criterion
  refine ⟨by rw [answer_expand_orbit, hexpand], fun board hleaves => ?_⟩
  have hleaves := unfailing_expanded.mp hleaves
  have hanswers : ∀ f ∈ made.map expansion, ∃ b, (f.test board).answer = .ok b := by
    intro f hf
    refine Settled.exists_answer ?_ (hleaves f hf)
    obtain ⟨f, hmem, rfl⟩ := List.mem_map.mp hf
    exact settled_expansion (hok f hmem)
  rw [expansion, expand, Reply.on, hexpand]
  exact Orbit.agree_of_perm hanswers (forall₂_follows_of_carriesOver hrow hleaves)
    (hperm.map expansion) ts ts' criterion 0 0

/-- Whatever a tree was expanded to carries over to the tree with its transforms
reordered. -/
theorem carriesOver_of_variant {f : Filter} (h : f.expand.answer = .ok ()) :
    ∀ g, Variant Reordered f g → CarriesOver f.expansion g := by
  have hrow : ∀ {fs gs : List Filter},
      (∀ f ∈ fs, f.expand.answer = .ok () → ∀ g, Variant Reordered f g →
        CarriesOver f.expansion g) →
      (∀ f ∈ fs, f.expand.answer = .ok ()) →
        List.Forall₂ (Variant Reordered) fs gs →
        List.Forall₂ (fun f g => CarriesOver f.expansion g) fs gs := by
    intro fs gs ih hok hvariants
    exact ((List.forall₂_and_left fs gs).mpr ⟨fun f hf => ih f hf (hok f hf),
      hvariants⟩).imp
      fun f g hfg => hfg.1 g hfg.2
  refine expansion_induction (motive := fun f fe => f.expand.answer = .ok () →
    ∀ g, Variant Reordered f g → CarriesOver fe g) ?bit ?scripted ?probe ?all ?any
      ?orbit f h h
  case bit =>
    intro mask h g hg
    cases hg with
    | same _ =>
        refine ⟨h, fun board _ => ?_⟩
        rw [expansion, expand]
        exact .refl board _
  case scripted =>
    intro label script current h g hg
    cases hg with
    | same _ =>
        refine ⟨h, fun board _ => ?_⟩
        rw [expansion, expand]
        exact .refl board _
  case probe =>
    intro traits cloneAs becomes h g hg
    have hprobe : ∀ becomes', CarriesOver (.probe traits cloneAs becomes)
        (.probe traits cloneAs becomes') := by
      intro becomes'
      rw [expand] at h
      rw [CarriesOver, expansion, expand]
      exact ⟨h, fun _ _ => .of_follows (fun b => id) (by simp)⟩
    cases hg with
    | same _ => exact hprobe becomes
    | becomes _ _ _ => exact hprobe _
    | breaks _ _ => exact hprobe _
  case all =>
    intro parts ih h g hg
    obtain ⟨parts', rfl, hparts⟩ := hg.exists_all
    have hcarried := hrow ih (expand_all_ok h).1 hparts
    have hok : (all parts').expand.answer = .ok () := by
      rw [answer_expand_all]
      exact Reply.done_askUntil_failed_iff.mpr
        (forall_expand_of_carriesOver hcarried)
    refine ⟨hok, fun board hleaves => .of_follows ?_ (by simp)⟩
    rw [(expand_all_ok hok).2]
    exact .all (forall₂_follows_of_carriesOver hcarried (unfailing_all.mp hleaves))
  case any =>
    intro parts ih h g hg
    obtain ⟨parts', rfl, hparts⟩ := hg.exists_any
    have hcarried := hrow ih (expand_any_ok h).1 hparts
    have hok : (any parts').expand.answer = .ok () := by
      rw [answer_expand_any]
      exact Reply.done_askUntil_failed_iff.mpr
        (forall_expand_of_carriesOver hcarried)
    refine ⟨hok, fun board hleaves => .of_follows ?_ (by simp)⟩
    rw [(expand_any_ok hok).2]
    exact .any (forall₂_follows_of_carriesOver hcarried (unfailing_any.mp hleaves))
  case orbit =>
    intro ts criterion base made hmade hne ih h g hg
    obtain ⟨ts', _, base', rfl, ⟨hts, rfl⟩, hbase⟩ :=
      hg.exists_deferred (.refl ts criterion)
    rw [answer_expand_orbit, Orbit.answer_expand_of_images hmade, if_neg hne] at h
    have hok := Reply.done_askUntil_failed_iff.mp h
    obtain ⟨row, hrowmade, hvariants⟩ := hbase.images hmade
    obtain ⟨made', hmade', hperm⟩ := hrowmade.of_perm hts
    exact carriesOver_orbit hmade' hne hok
      (hrow ih hok (Variant.forall₂_usable hvariants))
      (hperm.filter _)

end Filter

namespace Orbit

/-- Nothing is counted yet when an orbit is expanded. -/
theorem lastCount_expand {o : Orbit} (h : o.expand.answer = .ok ()) :
    o.expand.subject.lastCount = 0 := by
  cases o with
  | expanded ts criterion images count => simp [expand_expanded] at h
  | deferred ts criterion base =>
      obtain ⟨_, _, _, _, hsubject⟩ := expand_deferred_ok h
      rw [hsubject, lastCount]

/-- After a call an orbit has the count that a test of the board leaves, unless
it was to count without a criterion, which leaves the old one. -/
theorem lastCount_consult (o : Orbit) (call : Consultation) :
    (o.consult call).lastCount = match call, o.criterion with
      | .count _, none => o.lastCount
      | _, _ => (o.test call.board).subject.lastCount := by
  cases call with
  | test board => rfl
  | count board =>
      rw [consult, lastCount_subject_count]
      cases o.criterion <;> rfl

section Agree

variable {o o' : Orbit}

/-- Orbits that agree about all boards that they are asked about keep the same
count. -/
theorem lastCount_consultAll_of_agree {calls : List Consultation}
    (h : ∀ call ∈ calls, Filter.Agree call.board (.orbit o) (.orbit o'))
    (hcount : o'.lastCount = o.lastCount) :
    (o'.consultAll calls).lastCount = (o.consultAll calls).lastCount := by
  induction calls using List.reverseRecOn with
  | nil => exact hcount
  | append_singleton calls call ih =>
      have hbefore := ih fun c hc => h c (List.mem_append_left _ hc)
      obtain ⟨hcriterion, htest⟩ := (h call (by simp)).orbits o o' rfl rfl
      have hstep : ∀ p : Orbit, p.consultAll (calls ++ [call]) =
          (p.consultAll calls).consult call :=
        fun p => by simp [consultAll]
      rw [hstep, hstep, lastCount_consult, lastCount_consult,
        (fields_of_forget_eq (o.forget_consultAll calls)).2.1,
        (fields_of_forget_eq (o'.forget_consultAll calls)).2.1, hcriterion,
        lastCount_subject_test_consultAll, lastCount_subject_test_consultAll, htest,
        hbefore]

theorem answer_count_of_agree {board : Board} {b : Bool}
    (h : Filter.Agree board (.orbit o) (.orbit o'))
    (hb : (o.test board).answer = .ok b) :
    (o'.count board).answer = (o.count board).answer := by
  obtain ⟨hcriterion, hlast⟩ := h.orbits o o' rfl rfl
  have hb' : (o'.test board).answer = .ok b := h.follows b hb
  simp only [count, hcriterion]
  cases o.criterion with
  | none => rfl
  | some k => simp only [hb, hb', hlast]

end Agree

end Orbit

namespace Filter

/-- A tree expands when it expands with its transforms reordered.  Where no leaf
of its expansion fails, all tests come to the same verdict then, and the roots,
if they are orbits, give the same counts and keep the same count after the same
calls. -/
theorem reordered_trees_agree {f g : Filter} (h : Variant Reordered f g) :
    (f.expand.answer = .ok () ↔ g.expand.answer = .ok ()) ∧
    (f.expand.answer = .ok () →
      (∀ board, f.expansion.Unfailing board → ∀ f' g' : Filter,
        f'.forget = f.expansion.forget → g'.forget = g.expansion.forget → ∃ verdict,
          (f'.test board).answer = .ok verdict ∧
            (g'.test board).answer = .ok verdict) ∧
      ∀ o o', f = .orbit o → g = .orbit o' → ∀ calls : List Consultation,
        (∀ call ∈ calls, f.expansion.Unfailing call.board) →
          let later := o.expand.subject.consultAll calls
          let later' := o'.expand.subject.consultAll calls
          later'.lastCount = later.lastCount ∧
            ∀ board, f.expansion.Unfailing board →
              (later'.test board).answer = (later.test board).answer ∧
              (later'.count board).answer = (later.count board).answer) := by
  have hback : Variant Reordered g f := h.symm fun _ _ _ _ => Reordered.symm
  refine ⟨⟨fun hf => (carriesOver_of_variant hf g h).1,
    fun hg => (carriesOver_of_variant hg f hback).1⟩, fun hf => ?_⟩
  obtain ⟨hg, hagree⟩ := carriesOver_of_variant hf g h
  have hverdict : ∀ board, f.expansion.Unfailing board →
      ∃ b, (f.expansion.test board).answer = .ok b := fun board hleaves =>
    (settled_expansion hf).exists_answer hleaves
  refine ⟨fun board hleaves f' g' hf' hg' => ?_, ?_⟩
  · obtain ⟨b, hb⟩ := hverdict board hleaves
    refine ⟨b, ?_, ?_⟩
    · rw [answer_test_of_forget_eq hf', hb]
    · rw [answer_test_of_forget_eq hg', (hagree board hleaves).follows b hb]
  · rintro o o' rfl rfl calls hcalls
    have hroot : ∀ p : Orbit, (Filter.orbit p).expansion =
        .orbit p.expand.subject := by
      intro p
      rw [expansion, expand, Reply.on]
    rw [hroot] at hverdict hcalls hagree
    rw [hroot] at hagree
    rw [answer_expand_orbit] at hf hg
    refine ⟨Orbit.lastCount_consultAll_of_agree
      (fun call hcall => hagree _ (hcalls call hcall)) ?_,
      fun board hleaves => ?_⟩
    · rw [Orbit.lastCount_expand hf, Orbit.lastCount_expand hg]
    · have hleaves := hroot o ▸ hleaves
      obtain ⟨b, hb⟩ := hverdict board hleaves
      have hboard := hagree board hleaves
      simp only [congrArg Outcome.answer (Orbit.test_consultAll _ calls board),
        congrArg Outcome.answer (Orbit.count_consultAll _ calls board)]
      exact ⟨(hboard.follows b hb).trans hb.symm,
        Orbit.answer_count_of_agree hboard hb⟩

/-- Two orbits in one tree, each with its transforms in another order, of which
the outer one has an image that is left out. -/
theorem reordered_trees_agree_nested :
    let inner := fun ts => Filter.all [.bit 1, .orbit (.deferred ts none (.bit 2))]
    let criterion := some (Criterion.within (.exactly 2))
    let o := Orbit.deferred [.shift 0, .shift 4, .shift 31] criterion
      (inner [.shift 0, .shift 1])
    let o' := Orbit.deferred [.shift 31, .shift 0, .shift 4] criterion
      (inner [.shift 1, .shift 0])
    Variant Reordered (.orbit o) (.orbit o') ∧ o.expand.answer = .ok () ∧
      (orbit o).expansion.Unfailing 0x33 ∧ (orbit o').expand.answer = .ok () ∧
      (o.expand.subject.count 0x33).answer = .ok (some 2) ∧
      (o'.expand.subject.count 0x33).answer = .ok (some 2) := by
  intro inner criterion o o'
  have hinner :
      Variant Reordered (.orbit (.deferred [.shift 0, .shift 1] none (.bit 2)))
        (.orbit (.deferred [.shift 1, .shift 0] none (.bit 2))) :=
    .deferred ⟨by decide, rfl⟩ (.same _)
  have h : Variant Reordered (.orbit o) (.orbit o') :=
    .deferred ⟨by decide, rfl⟩
      (.of_forall₂_all (.cons (.same _) (.cons hinner .nil)))
  have hexpand : o.expand.answer = .ok () := by cbv
  have hleaves : (orbit o).expansion.Unfailing 0x33 := by
    have hexpansion : (orbit o).expansion =
        let image := fun mask near far => Filter.all
          [.bit mask,
            .orbit (.expanded [.shift 0, .shift 1] none [.bit near, .bit far] 0)]
        .orbit (.expanded o.transforms criterion
          [image 0x1 0x2 0x4, image 0x10 0x20 0x40] 0) := by
      cbv
    rw [hexpansion]
    simp
  have hcount : (o.expand.subject.count 0x33).answer = .ok (some 2) := by cbv
  obtain ⟨hiff, hagree⟩ := reordered_trees_agree h
  have hok : (orbit o).expand.answer = .ok () := by
    rw [answer_expand_orbit, hexpand]
  have hroots := ((hagree hok).2 o o' rfl rfl [] (by simp)).2 0x33 hleaves
  exact ⟨h, hexpand, hleaves, hiff.mp hok, hcount, hroots.2.trans hcount⟩

end Filter

end BoardQuery
