/-
Criteria written out.  An orbit without a criterion asks for one match at least.
Writing that criterion out in a tree, at any depth, makes a variant of the tree,
which fails to expand for the same reason as the tree or expands to a variant of
its expansion.
-/
import BoardQuery.Proofs.Variation

namespace BoardQuery

/-- The criterion that is met by one match or more, where there is none. -/
def Criterion.spelledOut : Option Criterion → Option Criterion
  | none => some (.within (.atLeast 1))
  | some k => some k

def CriterionSource.spelledOut : CriterionSource → CriterionSource
  | .absent => .given (.within (.atLeast 1))
  | source => source

mutual

def Blueprint.spelledOut : Blueprint → Blueprint
  | .bit mask => .bit mask
  | .scripted label script => .scripted label script
  | .probe traits cloneAs none => .probe traits cloneAs none
  | .probe traits cloneAs (some becomes) =>
      .probe traits cloneAs (some becomes.spelledOut)
  | .all parts => .all (Blueprint.spelledOutEach parts)
  | .any parts => .any (Blueprint.spelledOutEach parts)
  | .orbit ts source base => .orbit ts source.spelledOut base.spelledOut
  | .chain depth leaf => .chain depth leaf.spelledOut
  | .orbitChain depth ts source leaf =>
      .orbitChain depth ts source.spelledOut leaf.spelledOut

def Blueprint.spelledOutEach : List Blueprint → List Blueprint
  | [] => []
  | b :: rest => b.spelledOut :: Blueprint.spelledOutEach rest

end

mutual

/-- The filter with all absent criteria written out, `deep` also in what its
probes turn into. -/
def Filter.spelledOut (deep : Bool) : Filter → Filter
  | .probe traits cloneAs becomes =>
      .probe traits cloneAs (if deep then becomes.map Blueprint.spelledOut
        else becomes)
  | .all parts => .all (Filter.spelledOutEach deep parts)
  | .any parts => .any (Filter.spelledOutEach deep parts)
  | .orbit o => .orbit (o.spelledOut deep)
  | leaf => leaf

def Orbit.spelledOut (deep : Bool) : Orbit → Orbit
  | .deferred ts criterion base =>
      .deferred ts (Criterion.spelledOut criterion) (base.spelledOut deep)
  | .expanded ts criterion images count =>
      .expanded ts (Criterion.spelledOut criterion)
        (Filter.spelledOutEach deep images) count

def Filter.spelledOutEach (deep : Bool) : List Filter → List Filter
  | [] => []
  | f :: rest => f.spelledOut deep :: Filter.spelledOutEach deep rest

end

@[simp] theorem Filter.spelledOutEach_eq_map (deep : Bool) (fs : List Filter) :
    Filter.spelledOutEach deep fs = fs.map (Filter.spelledOut deep) := by
  induction fs with
  | nil => rfl
  | cons f rest ih => simp [Filter.spelledOutEach, ih]

/-- The transforms stay, and so does the criterion unless an absent one is
written out. -/
def SpellsOut (ts : List Transform) (criterion : Option Criterion)
    (ts' : List Transform) (criterion' : Option Criterion) : Prop :=
  ts' = ts ∧ (criterion' = criterion ∨ criterion = none ∧
    criterion' = Criterion.spelledOut none)

theorem spellsOut_spelledOut (ts : List Transform) (criterion : Option Criterion) :
    SpellsOut ts criterion ts (Criterion.spelledOut criterion) := by
  cases criterion with
  | none => exact ⟨rfl, .inr ⟨rfl, rfl⟩⟩
  | some k => exact ⟨rfl, .inl rfl⟩

theorem CriterionSource.resolve_spelledOut (source : CriterionSource) :
    source.spelledOut.resolve = source.resolve.map Criterion.spelledOut := by
  cases source with
  | absent => rfl
  | given k => rfl
  | text input =>
      simp only [spelledOut, resolve]
      cases CountRange.parse input <;> rfl

namespace Filter

theorem variant_chained {f g : Filter} (h : Variant SpellsOut f g) (depth : Nat) :
    Variant SpellsOut (f.chained depth) (g.chained depth) := by
  induction depth with
  | zero => exact h
  | succ n ih => exact .of_forall₂_all (.cons ih .nil)

theorem variant_orbited {f g : Filter} (h : Variant SpellsOut f g)
    (ts : List Transform) (criterion : Option Criterion) (depth : Nat) :
    Variant SpellsOut (f.orbited ts criterion depth)
      (g.orbited ts (Criterion.spelledOut criterion) depth) := by
  induction depth with
  | zero => exact h
  | succ n ih => exact .deferred (spellsOut_spelledOut ts criterion) ih

theorem paired_ofSource {f g : Filter} (h : Variant SpellsOut f g)
    (ts : List Transform) (source : CriterionSource) :
    Paired (Variant SpellsOut) ((Orbit.ofSource ts source f).map .orbit)
      ((Orbit.ofSource ts source.spelledOut g).map .orbit) := by
  rw [Orbit.ofSource, Orbit.ofSource, source.resolve_spelledOut]
  cases source.resolve with
  | error e => exact .error e
  | ok criterion => exact .ok (.deferred (spellsOut_spelledOut ts criterion) h)

theorem paired_orbitedFrom {f g : Filter} (h : Variant SpellsOut f g)
    (ts : List Transform) (source : CriterionSource) (depth : Nat) :
    Paired (Variant SpellsOut) (f.orbitedFrom ts source depth)
      (g.orbitedFrom ts source.spelledOut depth) := by
  unfold orbitedFrom
  split
  · exact .ok h
  · rw [source.resolve_spelledOut]
    cases source.resolve with
    | error e => exact .error e
    | ok criterion => exact .ok (variant_orbited h ts criterion depth)

end Filter

namespace Blueprint

theorem build_orbit (ts : List Transform) (source : CriterionSource)
    (base : Blueprint) :
    (orbit ts source base).build =
      base.build.bind fun f => (Orbit.ofSource ts source f).map .orbit := by
  rw [build]
  cases base.build <;> rfl

theorem build_orbitChain (depth : Nat) (ts : List Transform)
    (source : CriterionSource) (leaf : Blueprint) :
    (orbitChain depth ts source leaf).build =
      leaf.build.bind fun f => f.orbitedFrom ts source depth := by
  rw [build]
  cases leaf.build <;> rfl

theorem buildEach_cons (b : Blueprint) (rest : List Blueprint) :
    buildEach (b :: rest) = b.build.bind fun f =>
      (buildEach rest).map (f :: ·) := by
  rw [buildEach]
  cases b.build <;> rfl

mutual

/-- Writing absent criteria out in a blueprint does so in what is built. -/
theorem paired_build : ∀ b : Blueprint, Paired
    (Filter.Variant SpellsOut) b.build b.spelledOut.build
  | .bit _ => .ok (.same _)
  | .scripted _ _ => .ok (.same _)
  | .probe _ _ none => .ok (.same _)
  | .probe traits cloneAs (some becomes) =>
      .ok (.probe (paired_build becomes) traits cloneAs)
  | .all parts => (paired_buildEach parts).map fun _ _ => .of_forall₂_all
  | .any parts => (paired_buildEach parts).map fun _ _ => .of_forall₂_any
  | .orbit ts source base => by
      rw [spelledOut, build_orbit, build_orbit]
      exact (paired_build base).bind fun _ _ h => Filter.paired_ofSource h ts source
  | .chain depth leaf =>
      (paired_build leaf).map fun _ _ h => Filter.variant_chained h depth
  | .orbitChain depth ts source leaf => by
      rw [spelledOut, build_orbitChain, build_orbitChain]
      exact (paired_build leaf).bind fun _ _ h =>
        Filter.paired_orbitedFrom h ts source depth

theorem paired_buildEach :
    ∀ bs : List Blueprint,
      Paired (List.Forall₂ (Filter.Variant SpellsOut)) (buildEach bs)
      (buildEach (spelledOutEach bs))
  | [] => .ok .nil
  | b :: rest => by
      rw [spelledOutEach, buildEach_cons, buildEach_cons]
      exact (paired_build b).bind fun _ _ hfirst =>
        (paired_buildEach rest).map fun _ _ hrest => .cons hfirst hrest

end

end Blueprint

namespace Filter

theorem variant_spelledOut (deep : Bool) (f : Filter) :
    Variant SpellsOut f (f.spelledOut deep) := by
  have heach : ∀ fs : List Filter,
      (∀ f ∈ fs, Variant SpellsOut f (f.spelledOut deep)) →
        List.Forall₂ (Variant SpellsOut) fs (fs.map (spelledOut deep)) := by
    intro fs ih
    rw [List.forall₂_map_right_iff, List.forall₂_same]
    exact ih
  induction f using tree_induction with
  | bit mask => exact .same _
  | scripted label script current => exact .same _
  | probe traits cloneAs becomes =>
      cases deep with
      | false => exact .same _
      | true =>
          cases becomes with
          | none => exact .same _
          | some b => exact .probe b.paired_build traits cloneAs
  | all parts ih =>
      rw [spelledOut, spelledOutEach_eq_map]
      exact .of_forall₂_all (heach parts ih)
  | any parts ih =>
      rw [spelledOut, spelledOutEach_eq_map]
      exact .of_forall₂_any (heach parts ih)
  | deferred ts criterion base ih =>
      exact .deferred (spellsOut_spelledOut ts criterion) ih
  | expanded ts criterion images count ih =>
      rw [spelledOut, Orbit.spelledOut, spelledOutEach_eq_map]
      exact .of_forall₂_expanded (spellsOut_spelledOut ts criterion)
        (heach images ih) count

/-- Both filters fail to expand for the same reason, or both expand and to
variants. -/
def ExpandAlike (f g : Filter) : Prop :=
  Paired (fun _ _ => Variant SpellsOut f.expansion g.expansion) f.expand.answer
    g.expand.answer

theorem expandAlike_self (f : Filter) : ExpandAlike f f := by
  unfold ExpandAlike
  cases f.expand.answer with
  | error e => exact .error e
  | ok => exact .ok (.same _)

section Row

variable {fs gs : List Filter} (h : List.Forall₂ ExpandAlike fs gs)
include h

/-- When everything in one row expands, so does everything in the other. -/
theorem forall₂_expansion (hok : ∀ f ∈ fs, f.expand.answer = .ok ()) :
    (∀ g ∈ gs, g.expand.answer = .ok ()) ∧
      List.Forall₂ (Variant SpellsOut) (fs.map expansion) (gs.map expansion) := by
  induction h with
  | nil => exact ⟨by simp, .nil⟩
  | @cons f g fs gs hfg _ ih =>
      obtain ⟨hf, hfs⟩ := List.forall_mem_cons.mp hok
      obtain ⟨hgs, hvariants⟩ := ih hfs
      rw [ExpandAlike, hf] at hfg
      obtain ⟨_, hg, hvariant⟩ := hfg.exists_right
      exact ⟨List.forall_mem_cons.mpr ⟨hg, hgs⟩, .cons hvariant hvariants⟩

/-- The parts of composites expand alike together when they do one by one. -/
theorem paired_expandEach :
    Paired (fun _ _ => List.Forall₂ (Variant SpellsOut) (fs.map expansion)
      (gs.map expansion))
      ((Reply.answers (Reply.askUntil Reply.failed expand fs)).map fun _ => ())
      ((Reply.answers (Reply.askUntil Reply.failed expand gs)).map fun _ =>
        ()) := by
  rcases FirstFailure.all_ok_or (fun f : Filter => f.expand.answer)
    fs with hall | ⟨i, e, hfirst⟩
  · have hok : ∀ f ∈ fs, f.expand.answer = .ok () :=
      fun f hf => (hall f hf).choose_spec
    obtain ⟨hgs, hvariants⟩ := forall₂_expansion h hok
    rw [Reply.done_askUntil_failed_iff.mpr hok,
      Reply.done_askUntil_failed_iff.mpr hgs]
    exact .ok hvariants
  · have hfirst' : FirstFailure (fun g : Filter => g.expand.answer) gs i e :=
      hfirst.of_paired h
    rw [hfirst.askUntil.2, hfirst'.askUntil.2]
    exact .error e

end Row

/-- It is enough to look at what filters expand to when both do. -/
theorem ExpandAlike.of_paired {f g : Filter} {P : Prop}
    (h : Paired (fun _ _ => P) f.expand.answer g.expand.answer)
    (hok : f.expand.answer = .ok () → g.expand.answer = .ok () → P →
      Variant SpellsOut f.expansion g.expansion) : ExpandAlike f g := by
  unfold ExpandAlike
  cases hf : f.expand.answer with
  | error e =>
      rw [hf] at h
      rw [h.eq_error]
      exact .error e
  | ok =>
      rw [hf] at h
      obtain ⟨_, hg, hP⟩ := h.exists_right
      rw [hg]
      exact .ok (hok hf hg hP)

theorem expandAlike_all {parts parts' : List Filter}
    (h : List.Forall₂ ExpandAlike parts parts') :
    ExpandAlike (.all parts) (.all parts') := by
  have hpaired := paired_expandEach h
  rw [← answer_expand_all, ← answer_expand_all] at hpaired
  refine .of_paired hpaired fun hf hg hvariants => ?_
  rw [(expand_all_ok hf).2, (expand_all_ok hg).2]
  exact .of_forall₂_all hvariants

theorem expandAlike_any {parts parts' : List Filter}
    (h : List.Forall₂ ExpandAlike parts parts') :
    ExpandAlike (.any parts) (.any parts') := by
  have hpaired := paired_expandEach h
  rw [← answer_expand_any, ← answer_expand_any] at hpaired
  refine .of_paired hpaired fun hf hg hvariants => ?_
  rw [(expand_any_ok hf).2, (expand_any_ok hg).2]
  exact .of_forall₂_any hvariants

/-- What probes turn into has no part in their expansion. -/
theorem expandAlike_probe {traits : Traits}
    {cloneAs becomes becomes' : Option Blueprint}
    (h : Variant SpellsOut (.probe traits cloneAs becomes)
      (.probe traits cloneAs becomes')) :
    ExpandAlike (.probe traits cloneAs becomes)
      (.probe traits cloneAs becomes') := by
  simp only [ExpandAlike, expansion, expand]
  cases probeExpand traits with
  | error e => exact .error e
  | ok => exact .ok h

/-- Orbits over variants expand alike when their images that can match do. -/
theorem expandAlike_deferred {ts ts' : List Transform}
    {criterion criterion' : Option Criterion} {base base' : Filter}
    (horbit : SpellsOut ts criterion ts' criterion')
    (hbase : Variant SpellsOut base base')
    (himages : ∀ {made made'}, Orbit.Images base ts made →
      List.Forall₂ (Variant SpellsOut) made made' →
        List.Forall₂ ExpandAlike (usable made) (usable made')) :
    ExpandAlike (.orbit (.deferred ts criterion base))
      (.orbit (.deferred ts' criterion' base')) := by
  have hts : ts' = ts := horbit.1
  rw [ExpandAlike, answer_expand_orbit, answer_expand_orbit, hts]
  obtain ⟨reply, hending⟩ := Orbit.exists_ending ts criterion base
  cases hending with
  | transformFails hfirst =>
      have hpaired :
          List.Forall₂ (fun t u => Paired (Variant SpellsOut)
          (base.transform t).answer
            (base'.transform u).answer) ts ts :=
        List.forall₂_same.mpr fun t _ => hbase.transform t
      have hfirst' := hfirst.of_paired hpaired
      rw [Orbit.expand_of_transform_fails hfirst,
        Orbit.expand_of_transform_fails hfirst']
      exact .error _
  | allDegenerate hmade hall =>
      obtain ⟨made', hmade', hvariants⟩ := hbase.images hmade
      have hnone := usable_eq_nil_iff.mpr hall
      have hnone' : usable made' = [] := by
        have husable := Variant.forall₂_usable hvariants
        rwa [hnone, List.forall₂_nil_left_iff] at husable
      rw [Orbit.expand_of_all_degenerate hmade hnone,
        Orbit.expand_of_all_degenerate hmade' hnone']
      exact .error _
  | imageFails hmade hfirst =>
      obtain ⟨made', hmade', hvariants⟩ := hbase.images hmade
      have hfirst' :
          FirstFailure (fun g : Filter => g.expand.answer) (usable made') _ _ :=
        hfirst.of_paired (himages hmade hvariants)
      rw [Orbit.expand_of_image_fails hmade hfirst,
        Orbit.expand_of_image_fails hmade' hfirst']
      exact .error _
  | expands hmade hne hok =>
      obtain ⟨made', hmade', hvariants⟩ := hbase.images hmade
      obtain ⟨hok', hexpansions⟩ := forall₂_expansion (himages hmade hvariants) hok
      have hne' : usable made' ≠ [] := by
        rintro hnil
        rw [hnil, List.map_nil, List.forall₂_nil_right_iff] at hexpansions
        exact hne (List.map_eq_nil_iff.mp hexpansions)
      rw [expansion, expansion, expand, expand, Reply.on, Reply.on,
        Orbit.expand_of_images_expand hmade hne hok,
        Orbit.expand_of_images_expand hmade' hne' hok']
      exact .ok (.of_forall₂_expanded (hts ▸ horbit) hexpansions 0)

/-- Variants fail to expand for the same reason or both expand, to variants
again. -/
theorem Variant.expandAlike {f g : Filter} (h : Variant SpellsOut f g) :
    ExpandAlike f g := by
  induction hheight : f.height using Nat.strongRecOn generalizing f g with
  | ind n ih =>
      subst hheight
      have hrow : ∀ fs gs : List Filter, (∀ f' ∈ fs, f'.height < f.height) →
          List.Forall₂ (Variant SpellsOut) fs gs → List.Forall₂ ExpandAlike fs gs :=
        fun fs gs hlt h => ((List.forall₂_and_left fs gs).mpr ⟨hlt, h⟩).imp
          fun f' _ hfg => ih f'.height hfg.1 hfg.2 rfl
      cases h with
      | same f => exact expandAlike_self f
      | all hlength hparts =>
          have hvariants := List.forall₂_iff_zip.mpr ⟨hlength, hparts _ _⟩
          refine expandAlike_all (hrow _ _ (fun f' hf' => ?_) hvariants)
          exact Nat.lt_succ_of_le (height_le_heightOfEach hf')
      | any hlength hparts =>
          have hvariants := List.forall₂_iff_zip.mpr ⟨hlength, hparts _ _⟩
          refine expandAlike_any (hrow _ _ (fun f' hf' => ?_) hvariants)
          exact Nat.lt_succ_of_le (height_le_heightOfEach hf')
      | deferred horbit hbase =>
          refine expandAlike_deferred horbit hbase fun hmade hvariants => ?_
          refine hrow _ _ (fun f' hf' => ?_) (Variant.forall₂_usable hvariants)
          exact Nat.lt_succ_of_le (hmade.height_le (mem_usable.mp hf').1)
      | expanded horbit hlength himages =>
          rw [ExpandAlike, answer_expand_orbit, answer_expand_orbit,
            Orbit.expand_expanded, Orbit.expand_expanded]
          exact .error _
      | becomes hf hg h => exact expandAlike_probe (.becomes hf hg h)
      | breaks hf hg => exact expandAlike_probe (.breaks hf hg)

end Filter

end BoardQuery
