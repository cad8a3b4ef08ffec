/-
Pruning.  Expansion leaves out every image with an empty square mask anywhere in
it.  In a tree of bits and composites such an image may still match, namely when
the empty mask stands below a disjunction.  Hence what is left out matters,
unless each image that is left out is hopeless as a whole.
-/
import BoardQuery.Proofs.Meaning

namespace BoardQuery

namespace Filter

inductive BitTree : Filter → Prop
  | bit (mask : UInt32) : BitTree (.bit mask)
  | all {parts : List Filter} (hparts : ∀ f ∈ parts, BitTree f) :
      BitTree (.all parts)
  | any {parts : List Filter} (hparts : ∀ f ∈ parts, BitTree f) :
      BitTree (.any parts)

/-- The empty masks of the tree keep it from matching: they reach the root
through at least one part of every conjunction and through all parts of every
disjunction. -/
inductive Hopeless : Filter → Prop
  | bit : Hopeless (.bit 0)
  | all {parts : List Filter} {f : Filter} (hf : f ∈ parts)
      (hhopeless : Hopeless f) :
      Hopeless (.all parts)
  | any {parts : List Filter} (hparts : ∀ f ∈ parts, Hopeless f) :
      Hopeless (.any parts)

theorem Hopeless.meaning_eq_false {f : Filter} (h : f.Hopeless) (board : Board) :
    f.meaning board = false := by
  induction h with
  | bit => simp [meaning_bit]
  | all hf _ ih =>
      rw [meaning_all, List.all_eq_false]
      exact ⟨_, hf, by simp [ih]⟩
  | any _ ih =>
      rw [meaning_any, List.any_eq_false]
      intro f hf
      simp [ih f hf]

def fullBoard : Board := 0xFFFFFFFF

theorem fullBoard_and (mask : UInt32) : fullBoard &&& mask = mask :=
  UInt32.neg_one_and

namespace BitTree

variable {f : Filter}

/-- A tree that does not even match the full board is hopeless. -/
theorem hopeless_of_fullBoard (h : f.BitTree) :
    f.meaning fullBoard = false → f.Hopeless := by
  induction h with
  | bit mask =>
      intro hmask
      rw [meaning_bit, fullBoard_and] at hmask
      obtain rfl : mask = 0 := by simpa using hmask
      exact .bit
  | all _ ih =>
      intro hparts
      rw [meaning_all, List.all_eq_false] at hparts
      obtain ⟨f, hf, hfalse⟩ := hparts
      exact .all hf (ih f hf (by simpa using hfalse))
  | any _ ih =>
      intro hparts
      rw [meaning_any, List.any_eq_false] at hparts
      exact .any fun f hf => ih f hf (by simpa using hparts f hf)

/-- The hopeless trees are those that match no board. -/
theorem hopeless_iff (h : f.BitTree) :
    f.Hopeless ↔ ∀ board, f.meaning board = false :=
  ⟨fun hf board => hf.meaning_eq_false board,
    fun hf => h.hopeless_of_fullBoard (hf fullBoard)⟩

theorem moved (h : f.BitTree) (t : Transform) : (f.moved t).BitTree := by
  induction h with
  | bit mask => exact .bit _
  | all _ ih =>
      rw [Filter.moved, movedEach_eq_map]
      refine .all fun g hg => ?_
      obtain ⟨f, hf, rfl⟩ := List.mem_map.mp hg
      exact ih f hf
  | any _ ih =>
      rw [Filter.moved, movedEach_eq_map]
      refine .any fun g hg => ?_
      obtain ⟨f, hf, rfl⟩ := List.mem_map.mp hg
      exact ih f hf

theorem answer_transform (h : f.BitTree) {t : Transform} (ht : t.IsShift) :
    (f.transform t).answer = .ok (f.moved t) := by
  obtain ⟨n, rfl⟩ := ht
  induction h with
  | bit mask => rfl
  | all _ ih =>
      simp [Filter.transform, Filter.moved, Outcome.map, answer_inTurn_moved ih,
        Except.map]
  | any _ ih =>
      simp [Filter.transform, Filter.moved, Outcome.map, answer_inTurn_moved ih,
        Except.map]

theorem expansion_eq (h : f.expand.answer = .ok ()) :
    f.BitTree → f.expansion = f := by
  apply expansion_induction (motive := fun f g => f.BitTree → g = f) (h := h)
  case bit => exact fun _ _ => rfl
  case scripted => exact fun _ _ _ _ => rfl
  case probe => exact fun _ _ _ _ => rfl
  case all =>
    intro parts ih hf
    cases hf with
    | all hparts => rw [List.map_congr_left fun f hf =>
        ih f hf (hparts f hf), List.map_id']
  case any =>
    intro parts ih hf
    cases hf with
    | any hparts => rw [List.map_congr_left fun f hf =>
        ih f hf (hparts f hf), List.map_id']
  case orbit =>
    intro ts criterion base made _ _ _ hf
    cases hf

theorem answer_test (h : f.BitTree) (board : Board) :
    (f.test board).answer = .ok (f.meaning board) := by
  induction h with
  | bit mask => simp [Filter.test, meaning_bit]
  | all _ ih =>
      simp only [test_all]
      rw [Reply.all_answers_askUntil ih, meaning_all]
  | any _ ih =>
      simp only [test_any]
      rw [Reply.any_answers_askUntil ih, meaning_any]

end BitTree

/-- Leaving images out keeps a count exactly when none of them is counted. -/
theorem countP_usable_eq_iff {fs : List Filter} {verdict : Filter → Bool} :
    (usable fs).countP verdict = fs.countP verdict ↔
      ∀ f ∈ fs, f.isDegenerate = true → verdict f = false := by
  refine ⟨?_, countP_usable⟩
  intro h f hf hdegenerate
  have hsplit := List.countP_eq_countP_filter_add fs verdict fun f =>
    !f.isDegenerate
  rw [← usable, h] at hsplit
  have hnone : (fs.filter fun f => !!f.isDegenerate).countP verdict = 0 := by omega
  have hf' : f ∈ fs.filter fun f =>
    !!f.isDegenerate := by simpa [hf] using hdegenerate
  simpa using List.countP_eq_zero.mp hnone f hf'

end Filter

namespace Orbit

section Verdict

variable {α : Type} (as : List α) (verdict : α → Bool)

theorem verdict_none_map : Orbit.verdict none
    (as.map verdict) = as.any verdict := by
  simp [Orbit.verdict]

theorem verdict_some_map (k : Criterion) :
    Orbit.verdict (some k) (as.map verdict) = k.accepts (as.countP verdict) := by
  simp [Orbit.verdict, List.count_eq_countP, List.countP_map, Function.comp_def]

end Verdict

/-- Whether an orbit can be expanded does not depend on its criterion. -/
theorem answer_expand_deferred (ts : List Transform) (criterion : Option Criterion)
    (base : Filter) :
    (deferred ts criterion base).expand.answer =
      (deferred ts none base).expand.answer := by
  rw [expand_deferred, expand_deferred]
  simp only [settle]
  split <;> rfl

/-- An orbit answers as all of several trees would: its test with the verdict on
what they mean, and its count with how many of them match. -/
def AnswersAs (copies : List Filter) (criterion : Option Criterion) (board : Board)
    (o : Orbit) :
    Prop :=
  let verdict := Orbit.verdict criterion (copies.map (Filter.meaning board))
  (o.test board).answer = .ok verdict ∧
    (criterion ≠ none → (o.count board).answer =
      .ok (if verdict then some (copies.countP (Filter.meaning board)) else none))

section BitTree

variable {ts : List Transform} {base : Filter}

/-- The images of a tree of bits under shifts are trees of bits. -/
theorem bitTree_of_images (hts : ∀ t ∈ ts, t.IsShift) (hbase : base.BitTree)
    {made : List Filter} (hmade : Images base ts made) : ∀ f ∈ made, f.BitTree := by
  intro f hf
  obtain ⟨t, ht, hanswer⟩ := hmade.exists_of_mem hf
  rw [hbase.answer_transform (hts t ht), Except.ok.injEq] at hanswer
  exact hanswer ▸ hbase.moved t

/-- An expanded orbit over a tree of bits answers as the images that were not
left out. -/
theorem answersAs_usable (hts : ∀ t ∈ ts, t.IsShift) (hbase : base.BitTree)
    {copies : List Filter} (hcopies : Images base ts copies)
    {criterion : Option Criterion}
    (h : (deferred ts criterion base).expand.answer = .ok ()) (board : Board) :
    AnswersAs (Filter.usable copies) criterion board
      (deferred ts criterion base).expand.subject := by
  obtain ⟨made, hmade, _, hok, hsubject⟩ := expand_deferred_ok h
  have hmoved : ∀ t ∈ ts, (base.transform t).answer = .ok (base.moved t) :=
    fun t ht => hbase.answer_transform (hts t ht)
  obtain rfl : made = copies := by
    rw [Filter.eq_map_moved_of_images hmoved hmade,
      Filter.eq_map_moved_of_images hmoved hcopies]
  have himages : ∀ f ∈ Filter.usable made,
      (f.expansion.test board).answer = .ok (f.meaning board) := by
    intro f hf
    have htree := bitTree_of_images hts hbase hmade f (Filter.mem_usable.mp hf).1
    rw [Filter.BitTree.expansion_eq (hok f hf) htree, htree.answer_test]
  obtain ⟨hanswer, hcount⟩ := test_of_verdicts himages ts criterion 0
  rw [hsubject]
  cases criterion with
  | none => exact ⟨by rw [hanswer, verdict_none_map], fun hnone => absurd rfl hnone⟩
  | some k =>
      simp only [← verdict_some_map] at hanswer
      refine ⟨hanswer, fun hcriterion => ?_⟩
      simp only [count, Orbit.criterion, hanswer, hcount hcriterion, Except.map]

/-- Leaving out images of which none matches keeps the answers. -/
theorem AnswersAs.of_usable {copies : List Filter} {criterion : Option Criterion}
    {board : Board} {o : Orbit}
    (h : AnswersAs (Filter.usable copies) criterion board o)
    (hnever : ∀ f ∈ copies, f.isDegenerate = true → f.meaning board = false) :
    AnswersAs copies criterion board o := by
  unfold AnswersAs at h ⊢
  cases criterion with
  | none => simpa [verdict_none_map, Filter.any_usable hnever] using h
  | some k => simpa [verdict_some_map, Filter.countP_usable hnever] using h

/-- Under a criterion that every number meets, the answers show how many trees
match. -/
theorem AnswersAs.countP_eq {copies copies' : List Filter} {board : Board}
    {o : Orbit} (h : AnswersAs copies (some (.within (.atLeast 0))) board o)
    (h' : AnswersAs copies' (some (.within (.atLeast 0))) board o) :
    copies.countP (Filter.meaning board) =
      copies'.countP (Filter.meaning board) := by
  have hcount :=
    (h.2 (Option.some_ne_none _)).symm.trans (h'.2 (Option.some_ne_none _))
  simpa [verdict_some_map, Criterion.accepts, CountRange.accepts,
    CountRange.atLeast] using hcount

/-- Earlier tests and counts have no part in how an orbit answers. -/
theorem answersAs_consultAll_iff {copies : List Filter}
    {criterion : Option Criterion} {board : Board} {o : Orbit}
    (calls : List Consultation) :
    AnswersAs copies criterion board (o.consultAll calls) ↔
      AnswersAs copies criterion board o := by
  unfold AnswersAs
  rw [congrArg Outcome.answer (test_consultAll o calls board),
    congrArg Outcome.answer (count_consultAll o calls board)]

/-- Expanding an orbit over a tree of bits under shifts loses no match of any
image exactly when each image that is left out is hopeless: then, and only then,
all tests and counts under every criterion are those that all images together
give. -/
theorem expand_loses_nothing_iff (hts : ∀ t ∈ ts, t.IsShift) (hbase : base.BitTree)
    (h : (deferred ts none base).expand.answer = .ok ()) :
    ∃ copies, Images base ts copies ∧
      (∀ f ∈ copies, ∀ board, (f.test board).answer = .ok (f.meaning board)) ∧
      ((∀ criterion calls board, AnswersAs copies criterion board
        ((deferred ts criterion base).expand.subject.consultAll calls)) ↔
        ∀ f ∈ copies, f.isDegenerate = true → f.Hopeless) := by
  obtain ⟨copies, hcopies, _, _, _⟩ := expand_deferred_ok h
  have htrees := bitTree_of_images hts hbase hcopies
  have hall : ∀ criterion board, AnswersAs (Filter.usable copies) criterion board
      (deferred ts criterion base).expand.subject := by
    intro criterion board
    rw [← answer_expand_deferred ts criterion base] at h
    exact answersAs_usable hts hbase hcopies h board
  refine ⟨copies, hcopies, fun f hf board => (htrees f hf).answer_test board, ?_,
    ?_⟩
  · intro hsame f hf hdegenerate
    rw [(htrees f hf).hopeless_iff]
    intro board
    have hcount :=
      (hall (some (.within (.atLeast 0))) board).countP_eq (hsame _ [] board)
    exact Filter.countP_usable_eq_iff.mp hcount f hf hdegenerate
  · intro hhopeless criterion calls board
    rw [answersAs_consultAll_iff]
    apply (hall criterion board).of_usable
    exact fun f hf hdegenerate =>
      (hhopeless f hf hdegenerate).meaning_eq_false board

/-- A shift that leaves no square of a disjunction and with it no match. -/
theorem expand_loses_nothing_hopeless :
    let ts : List Transform := [.shift 0, .shift 4, .shift 31]
    let base := Filter.all [.bit 1, .any [.bit 2, .bit 4]]
    (∀ t ∈ ts, t.IsShift) ∧ base.BitTree ∧
      (deferred ts none base).expand.answer = .ok () ∧
      ∃ copies, Images base ts copies ∧ (Filter.usable copies).length = 2 ∧
        ∀ criterion calls board, AnswersAs copies criterion board
          ((deferred ts criterion base).expand.subject.consultAll calls) := by
  intro ts base
  have hts : ∀ t ∈ ts, t.IsShift := by simp [ts, Transform.IsShift]
  have hbase : base.BitTree :=
    .all (by simpa using ⟨.bit 1, .any (by simpa using ⟨.bit 2, .bit 4⟩)⟩)
  have hexpand : (deferred ts none base).expand.answer = .ok () := by cbv
  obtain ⟨copies, hcopies, _, hiff⟩ := expand_loses_nothing_iff hts hbase hexpand
  have hmoved : copies = [base, .all [.bit 16, .any [.bit 32, .bit 64]],
      .all [.bit 0x80000000, .any [.bit 0, .bit 0]]] :=
    Filter.eq_map_moved_of_images (fun t ht => hbase.answer_transform (hts t ht))
      hcopies
  have hhopeless : ∀ f ∈ copies, f.isDegenerate = true → f.Hopeless := by
    rw [hmoved]
    have hlast : Filter.Hopeless (.all [.bit 0x80000000, .any [.bit 0, .bit 0]]) :=
      .all (List.mem_cons_of_mem _ List.mem_cons_self) (.any (by simpa using .bit))
    simpa [base] using hlast
  exact ⟨hts, hbase, hexpand, copies, hcopies, by rw [hmoved]; rfl,
    hiff.mpr hhopeless⟩

/-- An image that is left out although it matches: of its disjunction one bit
has left the board and the other has not. -/
theorem expand_loses_match :
    let ts : List Transform := [.shift 0, .shift 1]
    let base := Filter.any [.bit 1, .bit 0x80000000]
    let o := deferred ts none base
    (∀ t ∈ ts, t.IsShift) ∧ base.BitTree ∧ o.expand.answer = .ok () ∧
      (base.transform (.shift 1)).answer = .ok (.any [.bit 2, .bit 0]) ∧
      ((Filter.any [.bit 2, .bit 0]).test 2).answer = .ok true ∧
      (o.expand.subject.test 2).answer = .ok false := by
  intro ts base o
  have hbase : base.BitTree := .any (by simpa using ⟨.bit 1, .bit 0x80000000⟩)
  exact ⟨by simp [ts, Transform.IsShift], hbase, by cbv, by cbv, by cbv, by cbv⟩

end BitTree

end Orbit

end BoardQuery
