/-
The meaning of a deferred tree.  What a tree asks of a board can be read off
before any expansion; expanding the tree and testing the result gives that
answer, although images that cannot match were left out on the way.
-/
import BoardQuery.Proofs.Consultation
import BoardQuery.Proofs.ShiftTree

namespace BoardQuery

namespace Filter

/-- What a tree of bits, composites and deferred orbits asks of a board: of an orbit
with a criterion, whether it accepts the number of transforms under which the base
matches, and of one without, whether the base matches under any. -/
def meaning (board : Board) (f : Filter) : Bool :=
  match f with
  | bit mask => board &&& mask != 0
  | all parts => parts.attach.all fun f => f.1.meaning board
  | any parts => parts.attach.any fun f => f.1.meaning board
  | orbit (.deferred ts none base) => ts.any fun t => (base.moved t).meaning board
  | orbit (.deferred ts (some criterion) base) =>
      criterion.accepts (ts.countP fun t => (base.moved t).meaning board)
  | _ => false
termination_by f.height
decreasing_by
  · exact Nat.lt_succ_of_le (height_le_heightOfEach f.2)
  · exact Nat.lt_succ_of_le (height_le_heightOfEach f.2)
  · rw [height_moved]
    exact Nat.lt_succ_self _
  · rw [height_moved]
    exact Nat.lt_succ_self _

theorem meaning_bit (board : Board) (mask : UInt32) :
    (bit mask).meaning board = (board &&& mask != 0) := by
  rw [meaning]

theorem meaning_all (board : Board) (parts : List Filter) :
    (all parts).meaning board = parts.all fun f => f.meaning board := by
  rw [meaning]
  simp

theorem meaning_any (board : Board) (parts : List Filter) :
    (any parts).meaning board = parts.any fun f => f.meaning board := by
  rw [meaning]
  simp

theorem meaning_deferred_none (board : Board) (ts : List Transform)
    (base : Filter) :
    (orbit (.deferred ts none base)).meaning board =
      ts.any fun t => (base.moved t).meaning board := by
  rw [meaning]

theorem meaning_deferred_some (board : Board) (ts : List Transform)
    (criterion : Criterion) (base : Filter) :
    (orbit (.deferred ts (some criterion) base)).meaning board =
      criterion.accepts (ts.countP fun t => (base.moved t).meaning board) := by
  rw [meaning]

end Filter

/-- Whether a criterion, if there is one, needs a match to be met. -/
def Criterion.NeedsMatch (criterion : Option Criterion) : Prop :=
  ∀ k ∈ criterion, k.accepts 0 = false

namespace Filter

namespace ShiftTree

/-- A tree with an empty square mask anywhere matches no board. -/
theorem meaning_of_isDegenerate {f : Filter} (h : f.ShiftTree Criterion.NeedsMatch)
    (board : Board) : f.isDegenerate = true → f.meaning board = false := by
  apply moved_induction
    (motive := fun f => f.isDegenerate = true → f.meaning board = false) (h := h)
  case bit =>
    intro mask hmask
    simp only [isDegenerate_bit, beq_iff_eq] at hmask
    simp [meaning_bit, hmask]
  case all =>
    intro parts _ ih hparts
    simp only [isDegenerate_all, List.any_eq_true] at hparts
    obtain ⟨f, hf, hdegenerate⟩ := hparts
    rw [meaning_all, List.all_eq_false]
    exact ⟨f, hf, by simp [ih f hf hdegenerate]⟩
  case orbit =>
    intro ts criterion base _ hcriterion _ ih hbase
    rw [isDegenerate_deferred] at hbase
    have hnever : ∀ t, (base.moved t).meaning board = false :=
      fun t => ih t (isDegenerate_moved t hbase)
    cases criterion with
    | none => simp [meaning_deferred_none, hnever]
    | some k =>
        have hzero := hcriterion k rfl
        simpa [meaning_deferred_some, hnever] using hzero

end ShiftTree

end Filter

namespace Orbit

/-- The verdict and the count of an orbit on images whose verdicts are known. -/
theorem test_of_verdicts {α : Type} {board : Board} {image : α → Filter}
    {verdict : α → Bool} {as : List α}
    (h : ∀ a ∈ as, ((image a).test board).answer = .ok (verdict a))
    (ts : List Transform) (criterion : Option Criterion) (count : Nat) :
    let r := (expanded ts criterion (as.map image) count).test board
    r.answer = .ok (match criterion with
      | none => as.any verdict
      | some k => k.accepts (as.countP verdict)) ∧
    (criterion ≠ none → r.subject.lastCount = as.countP verdict) := by
  simp only [test_expanded, Reply.askUntil_map, lastCount]
  cases criterion with
  | none => exact ⟨Reply.any_answers_askUntil h, fun hnone => absurd rfl hnone⟩
  | some k =>
      have hall := Reply.askUntil_eq_map fun a ha => Reply.failed_of_ok (h a ha)
      have hcount : (as.map verdict).count true = as.countP verdict := by
        simp [List.count_eq_countP, List.countP_map, Function.comp_def]
      refine ⟨?_, fun _ => Reply.matching_askUntil_failed h⟩
      change (Reply.answers (Reply.askUntil Reply.failed _ as)).map _ = _
      rw [hall, Reply.answers_map_of_ok h]
      simp [Except.map, Orbit.verdict, hcount]

end Orbit

namespace Filter

section Usable

variable {fs : List Filter} {verdict : Filter → Bool}

theorem any_usable (h : ∀ f ∈ fs, f.isDegenerate = true → verdict f = false) :
    (usable fs).any verdict = fs.any verdict := by
  rw [Bool.eq_iff_iff, List.any_eq_true, List.any_eq_true]
  constructor
  · rintro ⟨f, hf, hverdict⟩
    exact ⟨f, (mem_usable.mp hf).1, hverdict⟩
  · rintro ⟨f, hf, hverdict⟩
    refine ⟨f, mem_usable.mpr ⟨hf, ?_⟩, hverdict⟩
    by_contra hdegenerate
    rw [h f hf (by simpa using hdegenerate)] at hverdict
    contradiction

theorem countP_usable (h : ∀ f ∈ fs, f.isDegenerate = true → verdict f = false) :
    (usable fs).countP verdict = fs.countP verdict := by
  rw [usable, List.countP_filter]
  apply List.countP_congr
  intro f hf
  cases hdegenerate : f.isDegenerate with
  | false => simp
  | true => simp [h f hf hdegenerate]

end Usable

/-- Leaving out the images that cannot match changes neither the verdict of an orbit
nor its count. -/
theorem ShiftTree.test_of_images {ts : List Transform} {base : Filter}
    {made : List Filter} {board : Board} (hts : ∀ t ∈ ts, t.IsShift)
    (hbase : base.ShiftTree Criterion.NeedsMatch)
    (hmade : Orbit.Images base ts made)
    (h : ∀ f ∈ usable made, (f.expansion.test board).answer = .ok (f.meaning board))
    (criterion : Option Criterion) :
    let r :=
      (Orbit.expanded ts criterion ((usable made).map expansion) 0).test board
    r.answer = .ok ((Filter.orbit (.deferred ts criterion base)).meaning board) ∧
    (criterion ≠ none →
      r.subject.lastCount = ts.countP fun t => (base.moved t).meaning board) := by
  obtain ⟨hanswer, hcount⟩ := Orbit.test_of_verdicts h ts criterion 0
  rw [hbase.eq_map_of_images hts hmade] at hanswer hcount ⊢
  have hnever : ∀ f ∈ ts.map fun t => base.moved t,
      f.isDegenerate = true → f.meaning board = false := by
    intro f hf hdegenerate
    obtain ⟨t, _, rfl⟩ := List.mem_map.mp hf
    exact (hbase.moved t).meaning_of_isDegenerate board hdegenerate
  rw [any_usable hnever, countP_usable hnever, List.any_map,
    List.countP_map] at hanswer
  rw [countP_usable hnever, List.countP_map] at hcount
  refine ⟨?_, hcount⟩
  cases criterion with
  | none => rw [hanswer, meaning_deferred_none]; rfl
  | some k => rw [hanswer, meaning_deferred_some]; rfl

/-- Below the root, what a shift tree expands to answers as the tree means. -/
theorem ShiftTree.answer_test_expansion {f : Filter} (h : f.expand.answer = .ok ())
    (board : Board) : f.ShiftTree Criterion.NeedsMatch →
      (f.expansion.test board).answer = .ok (f.meaning board) := by
  apply expansion_induction (motive := fun f g => f.ShiftTree Criterion.NeedsMatch →
    (g.test board).answer = .ok (f.meaning board)) (h := h)
  case bit =>
    intro mask _
    simp [Filter.test, meaning_bit]
  case scripted =>
    intro label script current hf
    cases hf
  case probe =>
    intro traits cloneAs becomes hf
    cases hf
  case all =>
    intro parts ih hf
    cases hf with
    | all hparts =>
        have hanswers : ∀ f ∈ parts, (f.expansion.test board).answer =
            .ok (f.meaning board) :=
          fun f hf => ih f hf (hparts f hf)
        simp only [test_all, Reply.askUntil_map]
        rw [Reply.all_answers_askUntil hanswers, meaning_all]
  case any =>
    intro parts _ hf
    cases hf
  case orbit =>
    intro ts criterion base made hmade _ ih hf
    cases hf with
    | orbit hts hcriterion hbase =>
        have himages : ∀ f ∈ usable made,
            (f.expansion.test board).answer = .ok (f.meaning board) := by
          intro f hf
          refine ih f hf ?_
          rw [hbase.eq_map_of_images hts hmade] at hf
          obtain ⟨t, _, rfl⟩ := List.mem_map.mp (mem_usable.mp hf).1
          exact hbase.moved t
        exact (test_of_images hts hbase hmade himages criterion).1

end Filter

namespace Orbit

/-- Expanding and testing a tree of bits, conjunctions and orbits under shifts
gives its meaning, as long as the criteria below the root need a match.
Counting gives the number of transforms under which the base matches, if the
criterion accepts it.  Both hold however often the expanded tree was tested and
counted before. -/
theorem expand_computes_meaning {ts : List Transform} {criterion : Option Criterion}
    {base : Filter} (hts : ∀ t ∈ ts, t.IsShift)
    (hbase : base.ShiftTree Criterion.NeedsMatch)
    (h : (deferred ts criterion base).expand.answer = .ok ())
    (calls : List Consultation) (board : Board) :
    let o := (deferred ts criterion base).expand.subject.consultAll calls
    let matching := ts.countP fun t => (base.moved t).meaning board
    (o.test board).answer =
      .ok ((Filter.orbit (deferred ts criterion base)).meaning board) ∧
    ∀ k, criterion = some k →
      (o.count board).answer =
        .ok (if k.accepts matching then some matching else none) := by
  obtain ⟨made, hmade, _, hok, hsubject⟩ := expand_deferred_ok h
  have himages : ∀ f ∈ Filter.usable made,
      (f.expansion.test board).answer = .ok (f.meaning board) := by
    intro f hf
    refine Filter.ShiftTree.answer_test_expansion (hok f hf) board ?_
    rw [hbase.eq_map_of_images hts hmade] at hf
    obtain ⟨t, _, rfl⟩ := List.mem_map.mp (Filter.mem_usable.mp hf).1
    exact hbase.moved t
  obtain ⟨hanswer, hcount⟩ :=
    Filter.ShiftTree.test_of_images hts hbase hmade himages criterion
  simp only [congrArg Outcome.answer (test_consultAll _ calls board),
    congrArg Outcome.answer (count_consultAll _ calls board), hsubject]
  refine ⟨hanswer, ?_⟩
  rintro k rfl
  have hlast := hcount (Option.some_ne_none k)
  simp only [count, Orbit.criterion, hanswer, hlast, Except.map,
    Filter.meaning_deferred_some]

/-- A conjunction with an orbit in it, under three shifts of which the last one
empties a mask of the inner orbit, on a board that two images match. -/
theorem expand_computes_meaning_nested :
    let base :=
      Filter.all [.bit 1, .orbit (.deferred [.shift 1, .shift 0] none (.bit 2))]
    let o :=
      deferred [.shift 0, .shift 4, .shift 31] (some (.within (.exactly 2))) base
    base.ShiftTree Criterion.NeedsMatch ∧ o.expand.answer = .ok () ∧
      (o.expand.subject.test 0x33).answer = .ok ((Filter.orbit o).meaning 0x33) ∧
      (Filter.orbit o).meaning 0x33 = true := by
  intro base o
  have hbase : base.ShiftTree Criterion.NeedsMatch := by
    refine .all fun f hf => ?_
    simp only [List.mem_cons, List.not_mem_nil, or_false] at hf
    rcases hf with rfl | rfl
    · exact .bit 1
    · exact .orbit (by simp [Transform.IsShift]) (by simp [Criterion.NeedsMatch])
        (.bit 2)
  have hexpand : o.expand.answer = .ok () := by cbv
  have hmeaning :=
    expand_computes_meaning (by simp [Transform.IsShift]) hbase hexpand [] 0x33
  exact ⟨hbase, hexpand, hmeaning.1, by cbv⟩

end Orbit

end BoardQuery
