/-
Shift trees.  A tree of bits, conjunctions and deferred orbits under shifts has
an image under every shift, which is the same tree with its masks moved.
-/
import BoardQuery.Proofs.Expansion

namespace BoardQuery

def Transform.IsShift (t : Transform) : Prop :=
  ∃ n, t = .shift n

/-- The squares of a mask after a transform, of which only shifts move any. -/
def Transform.move (t : Transform) (mask : UInt32) : UInt32 :=
  match t with
  | .shift n => shiftMask mask n
  | _ => mask

@[simp] theorem Transform.move_zero (t : Transform) : t.move 0 = 0 := by
  cases t with
  | shift n => simp [move, shiftMask]
  | _ => rfl

namespace Filter

mutual

/-- The filter with its masks moved.  An orbit is moved with its base and keeps its
own transforms and criterion. -/
def moved (t : Transform) : Filter → Filter
  | bit mask => bit (t.move mask)
  | all parts => all (movedEach t parts)
  | any parts => any (movedEach t parts)
  | orbit (.deferred ts criterion base) =>
      orbit (.deferred ts criterion (base.moved t))
  | other => other

def movedEach (t : Transform) : List Filter → List Filter
  | [] => []
  | f :: rest => f.moved t :: movedEach t rest

end

@[simp] theorem movedEach_eq_map (t : Transform) (fs : List Filter) :
    movedEach t fs = fs.map (moved t) := by
  induction fs with
  | nil => rfl
  | cons f rest ih => simp [movedEach, ih]

theorem heightOfEach_map {g : Filter → Filter} {fs : List Filter}
    (h : ∀ f ∈ fs, (g f).height = f.height) :
    heightOfEach (fs.map g) = heightOfEach fs := by
  induction fs with
  | nil => rfl
  | cons f rest ih =>
      have hrest := ih fun f' hf' => h f' (List.mem_cons_of_mem f hf')
      simp only [List.map_cons, heightOfEach, h f List.mem_cons_self, hrest]

@[simp] theorem height_moved (t : Transform) (f : Filter) :
    (f.moved t).height = f.height := by
  induction f using tree_induction with
  | bit mask => simp [moved, height]
  | scripted label script current => rfl
  | probe traits cloneAs becomes => rfl
  | all parts ih => simp [moved, height, heightOfEach_map ih]
  | any parts ih => simp [moved, height, heightOfEach_map ih]
  | deferred ts criterion base ih => simp [moved, height, Orbit.height, ih]
  | expanded ts criterion images count _ => rfl

/-- A square mask that is empty is empty wherever it is moved. -/
theorem isDegenerate_moved (t : Transform) {f : Filter}
    (h : f.isDegenerate = true) :
    (f.moved t).isDegenerate = true := by
  induction f using tree_induction with
  | bit mask =>
      simp only [isDegenerate_bit, beq_iff_eq] at h
      simp [moved, h]
  | scripted label script current => exact h
  | probe traits cloneAs becomes => exact h
  | all parts ih =>
      simp only [isDegenerate_all, List.any_eq_true] at h
      obtain ⟨f, hf, hdegenerate⟩ := h
      simp only [moved, movedEach_eq_map, isDegenerate_all, List.any_map,
        List.any_eq_true]
      exact ⟨f, hf, ih f hf hdegenerate⟩
  | any parts ih =>
      simp only [isDegenerate_any, List.any_eq_true] at h
      obtain ⟨f, hf, hdegenerate⟩ := h
      simp only [moved, movedEach_eq_map, isDegenerate_any, List.any_map,
        List.any_eq_true]
      exact ⟨f, hf, ih f hf hdegenerate⟩
  | deferred ts criterion base ih =>
      simp only [isDegenerate_deferred] at h
      simpa [moved] using ih h
  | expanded ts criterion images count _ => exact h

/-- The images of parts are the moved parts if that is so for each of them. -/
theorem answer_inTurn_moved {t : Transform} {parts : List Filter}
    (h : ∀ f ∈ parts, (f.transform t).answer = .ok (f.moved t)) :
    (Outcome.inTurn (Filter.transform t) parts).answer =
      .ok (parts.map (moved t)) := by
  rw [Outcome.answer_inTurn_eq_ok, List.forall₂_map_right_iff, List.forall₂_same]
  exact h

/-- The images of a base that can be moved are the moved bases. -/
theorem eq_map_moved_of_images {base : Filter} {ts : List Transform}
    {made : List Filter}
    (h : ∀ t ∈ ts, (base.transform t).answer = .ok (base.moved t))
    (hmade : Orbit.Images base ts made) : made = ts.map fun t => base.moved t := by
  induction hmade with
  | nil => rfl
  | @cons t g ts made hg _ ih =>
      have himage := h t List.mem_cons_self
      have hrest := ih fun u hu => h u (List.mem_cons_of_mem t hu)
      rw [himage, Except.ok.injEq] at hg
      rw [List.map_cons, ← hrest, hg]

/-- Trees of bits, conjunctions and deferred orbits under shifts, with criteria of
which each one is allowed. -/
inductive ShiftTree (allowed : Option Criterion → Prop) : Filter → Prop
  | bit (mask : UInt32) : ShiftTree allowed (.bit mask)
  | all {parts : List Filter} (hparts : ∀ f ∈ parts, ShiftTree allowed f) :
      ShiftTree allowed (.all parts)
  | orbit {ts : List Transform} {criterion : Option Criterion} {base : Filter}
      (hts : ∀ t ∈ ts, t.IsShift) (hcriterion : allowed criterion)
      (hbase : ShiftTree allowed base) :
      ShiftTree allowed (.orbit (.deferred ts criterion base))

namespace ShiftTree

variable {allowed : Option Criterion → Prop} {f : Filter}

theorem moved (h : f.ShiftTree allowed) (t : Transform) :
    (f.moved t).ShiftTree allowed := by
  induction h with
  | bit mask => exact .bit _
  | @all parts _ ih =>
      rw [Filter.moved, movedEach_eq_map]
      refine .all fun g hg => ?_
      obtain ⟨f, hf, rfl⟩ := List.mem_map.mp hg
      exact ih f hf
  | orbit hts hcriterion _ ih => exact .orbit hts hcriterion ih

/-- The image of a shift tree under a shift is the moved tree. -/
theorem answer_transform (h : f.ShiftTree allowed) {t : Transform}
    (ht : t.IsShift) :
    (f.transform t).answer = .ok (f.moved t) := by
  obtain ⟨n, rfl⟩ := ht
  induction h with
  | bit mask => rfl
  | all _ ih =>
      simp [Filter.transform, Filter.moved, Outcome.map, answer_inTurn_moved ih,
        Except.map]
  | orbit _ _ _ ih =>
      simp [Filter.transform, Orbit.transform, Filter.moved, Outcome.map, ih,
        Except.map]

theorem images (h : f.ShiftTree allowed) {ts : List Transform}
    (hts : ∀ t ∈ ts, t.IsShift) :
    Orbit.Images f ts (ts.map fun t => f.moved t) := by
  rw [Orbit.Images, List.forall₂_map_right_iff, List.forall₂_same]
  exact fun t ht => h.answer_transform (hts t ht)

/-- The images of a shift tree under shifts are the moved trees. -/
theorem eq_map_of_images (h : f.ShiftTree allowed) {ts : List Transform}
    (hts : ∀ t ∈ ts, t.IsShift) {made : List Filter}
    (hmade : Orbit.Images f ts made) :
    made = ts.map fun t => f.moved t :=
  eq_map_moved_of_images (fun t ht => h.answer_transform (hts t ht)) hmade

/-- Induction over a shift tree in which the base of an orbit may be assumed moved
by any transform. -/
theorem moved_induction {motive : Filter → Prop}
    (bit : ∀ mask, motive (.bit mask))
    (all : ∀ parts : List Filter, (∀ f ∈ parts, f.ShiftTree allowed) →
      (∀ f ∈ parts, motive f) → motive (.all parts))
    (orbit : ∀ ts criterion base, (∀ t ∈ ts, t.IsShift) → allowed criterion →
      base.ShiftTree allowed → (∀ t, motive (base.moved t)) →
      motive (.orbit (.deferred ts criterion base)))
    (f : Filter) (h : f.ShiftTree allowed) : motive f := by
  induction hheight : f.height using Nat.strongRecOn generalizing f with
  | ind n ih =>
      subst hheight
      cases h with
      | bit mask => exact bit mask
      | @all parts hparts =>
          apply all parts hparts
          intro f hf
          have hlt : f.height < (Filter.all parts).height :=
            Nat.lt_succ_of_le (height_le_heightOfEach hf)
          exact ih f.height hlt f (hparts f hf) rfl
      | @orbit ts criterion base hts hcriterion hbase =>
          apply orbit ts criterion base hts hcriterion hbase
          intro t
          have hlt : (base.moved t).height <
              (Filter.orbit (.deferred ts criterion base)).height := by
            rw [height_moved]
            exact Nat.lt_succ_self _
          exact ih _ hlt (base.moved t) (hbase.moved t) rfl

end ShiftTree

end Filter

end BoardQuery
