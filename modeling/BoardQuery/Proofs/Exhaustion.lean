/-
Exhausted orbits.  In a tree of bits, conjunctions and orbits under shifts an
orbit may lose all its images, since each of them has an empty square mask.  An
image with such an orbit further down has no empty mask yet and is kept, and
then the whole expansion fails, whatever the other images would have given.
-/
import BoardQuery.Proofs.Meaning

namespace BoardQuery

namespace Filter

/-- `f.RunsOut n` says that expanding `f` comes to an orbit of `n` transforms of
which each one empties a square mask of its base. -/
inductive RunsOut : Filter → Nat → Prop
  | part {parts : List Filter} {f : Filter} {n : Nat} (hf : f ∈ parts)
      (h : RunsOut f n) :
      RunsOut (.all parts) n
  | here {ts : List Transform} {criterion : Option Criterion} {base : Filter}
      (h : ∀ t ∈ ts, (base.moved t).isDegenerate = true) :
      RunsOut (.orbit (.deferred ts criterion base)) ts.length
  | image {ts : List Transform} {criterion : Option Criterion} {base : Filter}
      {t : Transform}
      {n : Nat} (ht : t ∈ ts) (husable : (base.moved t).isDegenerate = false)
      (h : RunsOut (base.moved t) n) :
      RunsOut (.orbit (.deferred ts criterion base)) n

namespace ShiftTree

variable {allowed : Option Criterion → Prop} {f : Filter}

theorem answer_expand_ne_ok {n : Nat} (hout : f.RunsOut n)
    (h : f.ShiftTree allowed) :
    f.expand.answer ≠ .ok () := by
  induction hout with
  | @part parts f n hf _ ih =>
      cases h with
      | all hparts =>
          rw [answer_expand_all]
          intro hall
          exact ih (hparts f hf) (Reply.done_askUntil_failed_iff.mp hall f hf)
  | @here ts criterion base hnone =>
      cases h with
      | orbit hts _ hbase =>
          have husable : usable (ts.map fun t => base.moved t) = [] := by
            simpa [usable] using hnone
          rw [answer_expand_orbit, Orbit.answer_expand_of_images (hbase.images hts),
            if_pos husable]
          simp
  | @image ts criterion base t n ht husable _ ih =>
      cases h with
      | orbit hts _ hbase =>
          have hmem : base.moved t ∈ usable (ts.map fun t => base.moved t) :=
            mem_usable.mpr ⟨List.mem_map_of_mem ht, husable⟩
          rw [answer_expand_orbit, Orbit.answer_expand_of_images (hbase.images hts),
            if_neg (List.ne_nil_of_mem hmem)]
          intro hall
          exact ih (hbase.moved t) (Reply.done_askUntil_failed_iff.mp hall _ hmem)

theorem runsOut_of_error (h : f.ShiftTree allowed) :
    ∀ e, f.expand.answer = .error e → ∃ n, e = .emptyExpansion n ∧ f.RunsOut n := by
  apply moved_induction
    (motive := fun f => ∀ e, f.expand.answer = .error e →
      ∃ n, e = .emptyExpansion n ∧ f.RunsOut n)
    (h := h)
  case bit =>
    intro mask e he
    simp [expand] at he
  case all =>
    intro parts _ ih e he
    rw [answer_expand_all] at he
    obtain ⟨f, hf, hfailed⟩ := Reply.exists_of_map_answers_eq_error he
    obtain ⟨n, hn, hout⟩ := ih f hf e hfailed
    exact ⟨n, hn, .part hf hout⟩
  case orbit =>
    intro ts criterion base hts _ hbase ih e he
    rw [answer_expand_orbit, Orbit.answer_expand_of_images (hbase.images hts)] at he
    split_ifs at he with husable
    · refine ⟨ts.length, (Except.error.inj he).symm, .here ?_⟩
      simpa [usable] using husable
    · obtain ⟨f, hf, hfailed⟩ := Reply.exists_of_map_answers_eq_error he
      obtain ⟨hmade, husable⟩ := mem_usable.mp hf
      obtain ⟨t, ht, rfl⟩ := List.mem_map.mp hmade
      obtain ⟨n, hn, hout⟩ := ih t e hfailed
      exact ⟨n, hn, .image ht husable hout⟩

theorem answer_expand_eq_ok_iff (h : f.ShiftTree allowed) :
    f.expand.answer = .ok () ↔ ∀ n, ¬ f.RunsOut n := by
  constructor
  · exact fun hok n hout => h.answer_expand_ne_ok hout hok
  · intro hnever
    cases hanswer : f.expand.answer with
    | ok => rfl
    | error e =>
        obtain ⟨n, _, hout⟩ := h.runsOut_of_error e hanswer
        exact absurd hout (hnever n)

end ShiftTree

/-- An orbit runs out when each of its shifts empties a square mask of the base,
or when an image that holds no empty mask runs out. -/
theorem runsOut_orbit_iff {ts : List Transform} {criterion : Option Criterion}
    {base : Filter} {n : Nat} :
    (orbit (.deferred ts criterion base)).RunsOut n ↔
      (n = ts.length ∧ ∀ t ∈ ts, (base.moved t).isDegenerate = true) ∨
      ∃ t ∈ ts, (base.moved t).isDegenerate = false ∧ (base.moved t).RunsOut n := by
  constructor
  · intro h
    cases h with
    | here h => exact .inl ⟨rfl, h⟩
    | image ht husable h => exact .inr ⟨_, ht, husable, h⟩
  · rintro (⟨rfl, h⟩ | ⟨t, ht, husable, h⟩)
    · exact .here h
    · exact .image ht husable h

end Filter

namespace Orbit

/-- Whether an orbit over a shift tree expands is up to the images that hold no
empty mask. There has to be one, and none of them may run out of images further
down: the expansion fails with an orbit that does, however many other images
would have expanded. -/
theorem expand_survives_iff {ts : List Transform} {base : Filter}
    (hts : ∀ t ∈ ts, t.IsShift) (hbase : base.ShiftTree fun _ => True)
    (criterion : Option Criterion) :
    let answer := (deferred ts criterion base).expand.answer
    (∀ t ∈ ts, (base.transform t).answer = .ok (base.moved t) ∧
      ((base.moved t).expand.answer = .ok () ↔ ∀ n, ¬ (base.moved t).RunsOut n)) ∧
    ((∀ t ∈ ts, (base.moved t).isDegenerate = true) →
      answer = .error (.emptyExpansion ts.length)) ∧
    ((∃ t ∈ ts, (base.moved t).isDegenerate = false) →
      (answer = .ok () ↔
        ∀ t ∈ ts, (base.moved t).isDegenerate = false →
          ∀ n, ¬ (base.moved t).RunsOut n) ∧
      ∀ e, answer = .error e → ∃ t ∈ ts, (base.moved t).isDegenerate = false ∧
        ∃ n, (base.moved t).RunsOut n ∧ e = .emptyExpansion n) := by
  intro answer
  have horbit :
      (Filter.orbit (deferred ts criterion base)).ShiftTree fun _ => True :=
    .orbit hts trivial hbase
  have hanswer :
      (Filter.orbit (deferred ts criterion base)).expand.answer = answer :=
    Filter.answer_expand_orbit _
  refine ⟨?_, ?_, ?_⟩
  · intro t ht
    exact ⟨hbase.answer_transform (hts t ht),
      (hbase.moved t).answer_expand_eq_ok_iff⟩
  · intro hnone
    have hempty : Filter.usable (ts.map fun t => base.moved t) = [] := by
      simpa [Filter.usable] using hnone
    exact (answer_expand_of_images (hbase.images hts) criterion).trans
      (if_pos hempty)
  · rintro ⟨t, ht, husable⟩
    have hsome : ¬ ∀ t ∈ ts, (base.moved t).isDegenerate = true := by
      intro hnone
      simp [hnone t ht] at husable
    refine ⟨?_, ?_⟩
    · rw [← hanswer, horbit.answer_expand_eq_ok_iff]
      simp only [Filter.runsOut_orbit_iff, hsome, and_false, false_or, not_exists,
        not_and]
      exact ⟨fun h t ht husable n => h n t ht husable,
        fun h n t ht husable => h t ht husable n⟩
    · intro e he
      obtain ⟨n, rfl, hout⟩ := horbit.runsOut_of_error e (hanswer.trans he)
      rcases Filter.runsOut_orbit_iff.mp hout with
        ⟨_, hnone⟩ | ⟨t, ht, husable, hout⟩
      · exact absurd hnone hsome
      · exact ⟨t, ht, husable, n, hout, rfl⟩

/-- Of three shifts one empties all masks at once and one empties a mask of the
inner orbit under one of its two shifts; both leave enough to expand. -/
theorem expand_survives_iff_pruned :
    let inner := Filter.orbit (.deferred [.shift 1, .shift 2] none (.bit 1))
    let base := Filter.all [.bit 1, inner]
    let ts : List Transform := [.shift 0, .shift 30, .shift 32]
    (∀ t ∈ ts, t.IsShift) ∧ base.ShiftTree (fun _ => True) ∧
      (base.moved (.shift 32)).isDegenerate = true ∧
      (base.moved (.shift 30)).isDegenerate = false ∧
      (deferred ts none base).expand.answer = .ok () := by
  intro inner base ts
  have hts : ∀ t ∈ ts, t.IsShift := by simp [ts, Transform.IsShift]
  have hbase : base.ShiftTree fun _ => True :=
    .all (by simpa [inner] using
      ⟨.bit 1, .orbit (by simp [Transform.IsShift]) trivial (.bit 1)⟩)
  have hlost : (base.moved (.shift 32)).isDegenerate = true := by cbv
  have hkept : (base.moved (.shift 30)).isDegenerate = false := by cbv
  have hfirst : (base.moved (.shift 0)).expand.answer = .ok () := by cbv
  have hsecond : (base.moved (.shift 30)).expand.answer = .ok () := by cbv
  obtain ⟨hcopies, _, hsurvives⟩ := expand_survives_iff hts hbase none
  obtain ⟨hiff, _⟩ := hsurvives ⟨.shift 30, by simp [ts], hkept⟩
  refine ⟨hts, hbase, hlost, hkept, hiff.mpr ?_⟩
  intro t ht husable
  have hok : (base.moved t).expand.answer = .ok () := by
    simp only [ts, List.mem_cons, List.not_mem_nil, or_false] at ht
    rcases ht with rfl | rfl | rfl
    · exact hfirst
    · exact hsecond
    · rw [hlost] at husable
      contradiction
  exact (hcopies t ht).2.mp hok

/-- A shift that moves the base of an inner orbit to the last square, from where
the inner shift takes it off the board, sinks the whole expansion.  The other
shift leaves an image that expands, and the orbit matches a board by it. -/
theorem expand_sunk_by_image :
    let base := Filter.orbit (.deferred [.shift 1] none (.bit 1))
    let ts : List Transform := [.shift 0, .shift 31]
    (∀ t ∈ ts, t.IsShift) ∧ base.ShiftTree (fun _ => True) ∧
      (base.transform (.shift 0)).answer = .ok base ∧ base.isDegenerate = false ∧
      base.expand.answer = .ok () ∧
      (Filter.orbit (deferred ts none base)).meaning 2 = true ∧
      (deferred ts none base).expand.answer = .error (.emptyExpansion 1) := by
  intro base ts
  have hbase : base.ShiftTree fun _ => True :=
    .orbit (by simp [Transform.IsShift]) trivial (.bit 1)
  exact ⟨by simp [ts, Transform.IsShift],
    hbase, by cbv, by cbv, by cbv, by cbv, by cbv⟩

end Orbit

end BoardQuery
