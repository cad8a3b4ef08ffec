/-
Variants of trees.  A variant of a tree differs from it in nothing but the
transforms and the criteria of orbits.  The two have empty square masks at the
same places, and under every transform they fail alike or have images that are
variants again.
-/
import BoardQuery.Proofs.Expansion

namespace BoardQuery

/-- Two answers that are the same failure, or values that `R` relates. -/
inductive Paired {α β : Type} (R : α → β → Prop) :
    Except Error α → Except Error β → Prop
  | error (e : Error) : Paired R (.error e) (.error e)
  | ok {a : α} {b : β} (h : R a b) : Paired R (.ok a) (.ok b)

namespace Paired

variable {α β γ δ : Type} {R : α → β → Prop} {S : γ → δ → Prop}

theorem map {x : Except Error α} {y : Except Error β} {f : α → γ} {g : β → δ}
    (h : Paired R x y) (hfg : ∀ a b, R a b → S (f a) (g b)) :
    Paired S (x.map f) (y.map g) := by
  cases h with
  | error e => exact .error e
  | ok h => exact .ok (hfg _ _ h)

theorem bind {x : Except Error α} {y : Except Error β} {f : α → Except Error γ}
    {g : β → Except Error δ} (h : Paired R x y)
    (hfg : ∀ a b, R a b → Paired S (f a) (g b)) :
    Paired S (x.bind f) (y.bind g) := by
  cases h with
  | error e => exact .error e
  | ok h => exact hfg _ _ h

/-- The second answer is a success when the first one is. -/
theorem exists_right {a : α} {y : Except Error β} (h : Paired R (.ok a) y) :
    ∃ b, y = .ok b ∧ R a b := by
  cases h with
  | ok h => exact ⟨_, rfl, h⟩

theorem eq_error {e : Error} {y : Except Error β} (h : Paired R (.error e) y) :
    y = .error e := by
  cases h with
  | error => rfl

theorem eq_of_unit {S : Unit → Unit → Prop} {x y : Except Error Unit}
    (h : Paired S x y) :
    y = x := by
  cases h <;> rfl

/-- Rows of calls whose answers are paired one by one have paired answers. -/
theorem inTurn {call : α → Outcome γ} {call' : β → Outcome δ} {as : List α}
    {bs : List β}
    (h : List.Forall₂ (fun a b => Paired S (call a).answer (call' b).answer) as
      bs) :
    Paired (List.Forall₂ S)
      (Outcome.inTurn call as).answer (Outcome.inTurn call' bs).answer := by
  induction h with
  | nil => exact .ok .nil
  | @cons a b as bs hab _ ih =>
      simp only [Outcome.inTurn, Outcome.cons]
      cases ha : (call a).answer with
      | error e =>
          rw [ha] at hab
          rw [hab.eq_error]
          exact .error e
      | ok c =>
          rw [ha] at hab
          obtain ⟨d, hb, hcd⟩ := hab.exists_right
          rw [hb]
          exact ih.map fun _ _ hrest => .cons hcd hrest

end Paired

/-- Where calls are paired one by one, the first failure in one row is that in
the other. -/
theorem FirstFailure.of_paired {α β γ δ : Type} {R : α → β → γ → δ → Prop}
    {answer : α → Except Error γ} {answer' : β → Except Error δ} {as : List α}
    {bs : List β} {i : Nat} {e : Error}
    (h : List.Forall₂ (fun a b => Paired (R a b) (answer a) (answer' b)) as bs)
    (hfirst : FirstFailure answer as i e) : FirstFailure answer' bs i e := by
  induction h generalizing i with
  | nil => simpa using hfirst.fails
  | @cons a b as bs hab _ ih =>
      rcases hfirst.cases_cons with ⟨rfl, ha⟩ | ⟨j, c, rfl, ha, hrest⟩
      · rw [ha] at hab
        exact .head hab.eq_error
      · rw [ha] at hab
        obtain ⟨d, hb, _⟩ := hab.exists_right
        exact .cons hb (ih hrest)

namespace Filter

/-- `Variant allows f g` says that `g` is `f` with other transforms and criteria
in some orbits, each time as allowed.  What probes turn into may vary in the
same way. -/
inductive Variant
    (allows : List Transform → Option Criterion → List Transform →
      Option Criterion → Prop) :
    Filter → Filter → Prop
  | same (f : Filter) : Variant allows f f
  | all {parts parts' : List Filter} (hlength : parts.length = parts'.length)
      (hparts : ∀ f g, (f, g) ∈ parts.zip parts' → Variant allows f g) :
      Variant allows (.all parts) (.all parts')
  | any {parts parts' : List Filter} (hlength : parts.length = parts'.length)
      (hparts : ∀ f g, (f, g) ∈ parts.zip parts' → Variant allows f g) :
      Variant allows (.any parts) (.any parts')
  | deferred {ts ts' : List Transform} {criterion criterion' : Option Criterion}
      {base base' : Filter} (horbit : allows ts criterion ts' criterion')
      (hbase : Variant allows base base') :
      Variant allows (.orbit (.deferred ts criterion base))
        (.orbit (.deferred ts' criterion' base'))
  | expanded {ts ts' : List Transform} {criterion criterion' : Option Criterion}
      {images images' : List Filter} {count : Nat}
      (horbit : allows ts criterion ts' criterion')
      (hlength : images.length = images'.length)
      (himages : ∀ f g, (f, g) ∈ images.zip images' → Variant allows f g) :
      Variant allows (.orbit (.expanded ts criterion images count))
        (.orbit (.expanded ts' criterion' images' count))
  | becomes {traits : Traits} {cloneAs : Option Blueprint} {b b' : Blueprint}
      {f g : Filter}
      (hf : b.build = .ok f) (hg : b'.build = .ok g) (h : Variant allows f g) :
      Variant allows (.probe traits cloneAs (some b))
        (.probe traits cloneAs (some b'))
  | breaks {traits : Traits} {cloneAs : Option Blueprint} {b b' : Blueprint}
      {e : Error}
      (hf : b.build = .error e) (hg : b'.build = .error e) :
      Variant allows (.probe traits cloneAs (some b))
        (.probe traits cloneAs (some b'))

namespace Variant

variable {allows : List Transform → Option Criterion → List Transform →
    Option Criterion → Prop}
  {f g base base' : Filter} {parts parts' : List Filter}

theorem forall₂_same (fs : List Filter) : List.Forall₂ (Variant allows) fs fs :=
  List.forall₂_same.mpr fun f _ => .same f

/-- Parts that are variants make composites that are. -/
theorem of_forall₂_all (h : List.Forall₂ (Variant allows) parts parts') :
    Variant allows (.all parts) (.all parts') :=
  have hzip := List.forall₂_iff_zip.mp h
  .all hzip.1 fun _ _ => hzip.2

theorem of_forall₂_any (h : List.Forall₂ (Variant allows) parts parts') :
    Variant allows (.any parts) (.any parts') :=
  have hzip := List.forall₂_iff_zip.mp h
  .any hzip.1 fun _ _ => hzip.2

theorem of_forall₂_expanded {ts ts' : List Transform}
    {criterion criterion' : Option Criterion}
    (horbit : allows ts criterion ts' criterion')
    (h : List.Forall₂ (Variant allows) parts parts') (count : Nat) :
    Variant allows (.orbit (.expanded ts criterion parts count))
      (.orbit (.expanded ts' criterion' parts' count)) :=
  have hzip := List.forall₂_iff_zip.mp h
  .expanded horbit hzip.1 fun _ _ => hzip.2

theorem probe {b b' : Blueprint} (h : Paired (Variant allows) b.build b'.build)
    (traits : Traits) (cloneAs : Option Blueprint) :
    Variant allows (.probe traits cloneAs (some b))
      (.probe traits cloneAs (some b')) := by
  cases hb : b.build with
  | error e =>
      rw [hb] at h
      exact .breaks hb h.eq_error
  | ok f =>
      rw [hb] at h
      obtain ⟨g, hg, hfg⟩ := h.exists_right
      exact .becomes hb hg hfg

/-- A variant of a conjunction is the conjunction of variants. -/
theorem exists_all (h : Variant allows (.all parts) g) :
    ∃ parts', g = .all parts' ∧ List.Forall₂ (Variant allows) parts parts' := by
  cases h with
  | same _ => exact ⟨parts, rfl, forall₂_same parts⟩
  | all hlength hparts =>
      exact ⟨_, rfl, List.forall₂_iff_zip.mpr ⟨hlength, hparts _ _⟩⟩

theorem exists_any (h : Variant allows (.any parts) g) :
    ∃ parts', g = .any parts' ∧ List.Forall₂ (Variant allows) parts parts' := by
  cases h with
  | same _ => exact ⟨parts, rfl, forall₂_same parts⟩
  | any hlength hparts =>
      exact ⟨_, rfl, List.forall₂_iff_zip.mpr ⟨hlength, hparts _ _⟩⟩

/-- A variant of a deferred orbit is an orbit that is allowed in its place. -/
theorem exists_deferred {ts : List Transform} {criterion : Option Criterion}
    (hrefl : allows ts criterion ts criterion)
    (h : Variant allows (.orbit (.deferred ts criterion base)) g) :
    ∃ ts' criterion' base', g = .orbit (.deferred ts' criterion' base') ∧
      allows ts criterion ts' criterion' ∧ Variant allows base base' := by
  cases h with
  | same _ => exact ⟨ts, criterion, base, rfl, hrefl, .same base⟩
  | deferred horbit hbase => exact ⟨_, _, _, rfl, horbit, hbase⟩

/-- What is allowed in both directions makes variants of each other. -/
theorem symm (hallows : ∀ ts criterion ts' criterion',
    allows ts criterion ts' criterion' → allows ts' criterion' ts criterion)
    (h : Variant allows f g) : Variant allows g f := by
  have hflip : ∀ {fs gs : List Filter}, fs.length = gs.length →
      (∀ f g, (f, g) ∈ fs.zip gs → Variant allows g f) →
        ∀ g f, (g, f) ∈ gs.zip fs → Variant allows g f := by
    intro fs gs hlength hfg g f hgf
    have hrow : List.Forall₂ (fun f g => Variant allows g f) fs gs :=
      List.forall₂_iff_zip.mpr ⟨hlength, hfg _ _⟩
    exact List.forall₂_zip hrow.flip hgf
  induction h with
  | same f => exact .same f
  | all hlength _ ih => exact .all hlength.symm (hflip hlength ih)
  | any hlength _ ih => exact .any hlength.symm (hflip hlength ih)
  | deferred horbit _ ih => exact .deferred (hallows _ _ _ _ horbit) ih
  | expanded horbit hlength _ ih =>
      exact .expanded (hallows _ _ _ _ horbit) hlength.symm (hflip hlength ih)
  | becomes hf hg _ ih => exact .becomes hg hf ih
  | breaks hf hg => exact .breaks hg hf

/-- What every part of one composite has, every part of the other has when it is
passed on from part to part. -/
theorem forall_mem_of_zip {P Q : Filter → Prop}
    (hlength : parts.length = parts'.length)
    (h : ∀ f g, (f, g) ∈ parts.zip parts' → P f → Q g) (hP : ∀ f ∈ parts, P f) :
    ∀ g ∈ parts', Q g := by
  have hparts : List.Forall₂ (fun f g => P f → Q g) parts parts' :=
    List.forall₂_iff_zip.mpr ⟨hlength, h _ _⟩
  clear hlength h
  induction hparts with
  | nil => simp
  | cons hfg _ ih =>
      obtain ⟨hf, hfs⟩ := List.forall_mem_cons.mp hP
      exact List.forall_mem_cons.mpr ⟨hfg hf, ih hfs⟩

/-- A property of trees that variants share holds at all nodes of a variant when
it holds at all nodes of the tree. -/
theorem forall_mem_nodes {P : Filter → Prop}
    (hP : ∀ f g, Variant allows f g → P f → P g) (h : Variant allows f g) :
    (∀ n ∈ f.nodes, P n) → ∀ n ∈ g.nodes, P n := by
  induction h with
  | same f => exact id
  | all hlength hparts ih =>
      rw [forall_mem_nodes_all, forall_mem_nodes_all]
      exact And.imp (hP _ _ (.all hlength hparts)) (forall_mem_of_zip hlength ih)
  | any hlength hparts ih =>
      rw [forall_mem_nodes_any, forall_mem_nodes_any]
      exact And.imp (hP _ _ (.any hlength hparts)) (forall_mem_of_zip hlength ih)
  | deferred horbit hbase ih =>
      rw [forall_mem_nodes_deferred, forall_mem_nodes_deferred]
      exact And.imp (hP _ _ (.deferred horbit hbase)) ih
  | expanded horbit hlength himages ih =>
      rw [forall_mem_nodes_expanded, forall_mem_nodes_expanded]
      exact And.imp (hP _ _ (.expanded horbit hlength himages))
        (forall_mem_of_zip hlength ih)
  | becomes hf hg h _ =>
      simpa using hP _ _ (.becomes hf hg h)
  | breaks hf hg =>
      simpa using hP _ _ (.breaks hf hg)

theorem any_isDegenerate_eq (hlength : parts.length = parts'.length)
    (h : ∀ f g, (f, g) ∈ parts.zip parts' → g.isDegenerate = f.isDegenerate) :
    parts'.any isDegenerate = parts.any isDegenerate := by
  have hparts : List.Forall₂ (fun f g :
      Filter => g.isDegenerate = f.isDegenerate) parts parts' :=
    List.forall₂_iff_zip.mpr ⟨hlength, h _ _⟩
  clear hlength h
  induction hparts with
  | nil => rfl
  | cons hfg _ ih => rw [List.any_cons, List.any_cons, hfg, ih]

/-- Variants have empty square masks at the same places. -/
theorem isDegenerate_eq (h : Variant allows f g) :
    g.isDegenerate = f.isDegenerate := by
  induction h with
  | same f => rfl
  | all hlength _ ih => simpa using any_isDegenerate_eq hlength ih
  | any hlength _ ih => simpa using any_isDegenerate_eq hlength ih
  | deferred _ _ ih => simpa using ih
  | expanded _ hlength _ ih => simpa using any_isDegenerate_eq hlength ih
  | becomes _ _ _ _ => simp
  | breaks _ _ => simp

/-- Leaving out what has an empty square mask leaves variants. -/
theorem forall₂_usable {fs gs : List Filter}
    (h : List.Forall₂ (Variant allows) fs gs) :
    List.Forall₂ (Variant allows) (usable fs) (usable gs) := by
  induction h with
  | nil => exact .nil
  | @cons f g fs gs hfg _ ih =>
      have hdegenerate := hfg.isDegenerate_eq
      cases hf : f.isDegenerate with
      | true =>
          rw [hf] at hdegenerate
          simpa [usable, hf, hdegenerate] using ih
      | false =>
          rw [hf] at hdegenerate
          simpa [usable, hf, hdegenerate] using And.intro hfg ih

/-- What a probe turns into under a transform varies with its blueprint. -/
theorem paired_probeImage {b b' : Blueprint}
    (h : Paired (Variant allows) b.build b'.build) (traits : Traits)
    (cloneAs : Option Blueprint) (t : Transform) :
    Paired (Variant allows) (probeImage traits cloneAs (some b) t)
      (probeImage traits cloneAs (some b') t) := by
  unfold probeImage
  split
  · exact .error _
  · exact h

/-- The images of variants are variants, and one has an image when the other
does. -/
theorem transform (h : Variant allows f g) (t : Transform) :
    Paired (Variant allows) (f.transform t).answer (g.transform t).answer := by
  induction h with
  | same f =>
      cases (f.transform t).answer with
      | error e => exact .error e
      | ok image => exact .ok (.same image)
  | all hlength _ ih =>
      simp only [Filter.transform, transformEach_eq_inTurn, Outcome.map]
      have hparts := Paired.inTurn (List.forall₂_iff_zip.mpr ⟨hlength, ih _ _⟩)
      exact hparts.map fun _ _ => of_forall₂_all
  | any hlength _ ih =>
      simp only [Filter.transform, transformEach_eq_inTurn, Outcome.map]
      have hparts := Paired.inTurn (List.forall₂_iff_zip.mpr ⟨hlength, ih _ _⟩)
      exact hparts.map fun _ _ => of_forall₂_any
  | deferred horbit _ ih =>
      simp only [Filter.transform, Orbit.transform, Outcome.map]
      have horbits : Paired (fun o o' => Variant allows (.orbit o) (.orbit o')) _ _ :=
        ih.map fun _ _ hbase => .deferred horbit hbase
      exact horbits.map fun _ _ h => h
  | expanded _ _ _ _ =>
      simp only [Filter.transform, Orbit.transform, Outcome.map, Except.map]
      exact .error _
  | @becomes traits cloneAs b b' _ _ hf hg h _ =>
      have hbuilt : Paired (Variant allows) b.build b'.build := by
        rw [hf, hg]
        exact .ok h
      exact paired_probeImage hbuilt traits cloneAs t
  | @breaks traits cloneAs b b' e hf hg =>
      have hbuilt : Paired (Variant allows) b.build b'.build := by
        rw [hf, hg]
        exact .error e
      exact paired_probeImage hbuilt traits cloneAs t

/-- The images of variants under several transforms are variants. -/
theorem images (h : Variant allows base base') {ts : List Transform}
    {made : List Filter} (hmade : Orbit.Images base ts made) :
    ∃ made', Orbit.Images base' ts made' ∧
      List.Forall₂ (Variant allows) made made' := by
  induction hmade with
  | nil => exact ⟨[], .nil, .nil⟩
  | @cons t f ts made hf _ ih =>
      obtain ⟨made', hmade', hvariants⟩ := ih
      have himage := h.transform t
      rw [hf] at himage
      obtain ⟨g, hg, hfg⟩ := himage.exists_right
      exact ⟨g :: made', .cons hg hmade', .cons hfg hvariants⟩

end Variant

end Filter

end BoardQuery
