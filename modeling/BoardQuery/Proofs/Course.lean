/-
How a test goes.  An expanded orbit asks its images in turn, and there are five
ways for that to end.  Each fixes which images are asked, how many of them match
and what the answer is; a count goes the same way and differs in nothing but its
answer.
-/
import BoardQuery.Proofs.Unfailing

namespace BoardQuery

namespace Reply

section Deciding

variable {σ : Type} {r : Reply σ Bool}

theorem failed_eq_false_iff : r.failed = false ↔ ∃ b, r.answer = .ok b := by
  cases h : r.answer <;> simp [failed, h]

theorem failed_eq_true_iff : r.failed = true ↔ ∃ e, r.answer = .error e := by
  cases h : r.answer <;> simp [failed, h]

theorem settlesAny_eq_false_iff : r.settlesAny = false ↔ r.answer = .ok false := by
  cases h : r.answer <;> simp [settlesAny, failed, gave, h]

theorem settlesAny_eq_true_iff :
    r.settlesAny = true ↔ r.answer = .ok true ∨ ∃ e, r.answer = .error e := by
  cases h : r.answer <;> simp [settlesAny, failed, gave, h]

theorem gave_of_error {e : Error} (h : r.answer = .error e) (verdict : Bool) :
    r.gave verdict = false := by
  rw [gave, h]

end Deciding

section Rows

variable {α σ : Type}

theorem matching_concat (ask : α → Reply σ Bool) (before : List α) (last : α) :
    matching ((before ++ [last]).map ask) =
      matching (before.map ask) + if (ask last).gave true then 1 else 0 := by
  rw [matching, matching, List.map_append, List.countP_append, List.map_singleton,
    List.countP_singleton]

theorem matching_of_denials {ask : α → Reply σ Bool} {before : List α}
    (h : ∀ a ∈ before, (ask a).answer = .ok false) :
    matching (before.map ask) = 0 := by
  rw [matching, List.countP_eq_zero, List.forall_mem_map]
  intro a ha
  rw [gave_of_ok (h a ha)]
  decide

end Rows

end Reply

theorem Orbit.calls_testJournal {σ : Type} (replies : List (Reply σ Bool)) :
    (testJournal replies).calls = replies.flatMap fun r => r.journal.calls := by
  rw [testJournal]
  generalize 0 = i
  induction replies generalizing i with
  | nil => rfl
  | cons r rest ih =>
      have hremark : Journal.calls (if r.gave true then [.matched i] else []) =
          [] := by
        split <;> rfl
      rw [List.zipIdx_cons, List.flatMap_cons, List.flatMap_cons, ← ih (i + 1)]
      simp only [Journal.calls, List.filterMap_append] at hremark ⊢
      rw [hremark, List.append_nil]

theorem Filter.matching_map_test (board : Board) (fs : List Filter) :
    Reply.matching (fs.map (Filter.test board)) =
      fs.countP (Filter.matching board) :=
  List.countP_map

/-- How an expanded orbit asks its images: with the criterion come the images
that are asked, those that are not, the number that matched, and the answer. -/
inductive Orbit.Course (board : Board) :
    Option Criterion → List Filter → List Filter → Nat → Except Error Bool → Prop
  | firstMatch {before left : List Filter} {last : Filter}
      (hbefore : ∀ f ∈ before, (f.test board).answer = .ok false)
      (hlast : (last.test board).answer = .ok true) :
      Course board none (before ++ [last]) left 1 (.ok true)
  | firstFailure {before left : List Filter} {last : Filter} {e : Error}
      (hbefore : ∀ f ∈ before, (f.test board).answer = .ok false)
      (hlast : (last.test board).answer = .error e) :
      Course board none (before ++ [last]) left 0 (.error e)
  | noMatch {images : List Filter}
      (h : ∀ f ∈ images, (f.test board).answer = .ok false) :
      Course board none images [] 0 (.ok false)
  | fullCount {criterion : Criterion} {images : List Filter}
      (h : ∀ f ∈ images, ∃ b, (f.test board).answer = .ok b) :
      Course board (some criterion) images []
        (images.countP (Filter.matching board))
        (.ok (criterion.accepts (images.countP (Filter.matching board))))
  | brokenOff {criterion : Criterion} {before left : List Filter} {last : Filter}
      {e : Error}
      (hbefore : ∀ f ∈ before, ∃ b, (f.test board).answer = .ok b)
      (hlast : (last.test board).answer = .error e) :
      Course board (some criterion) (before ++ [last]) left
        (before.countP (Filter.matching board)) (.error e)

namespace Orbit

variable {board : Board} {criterion : Option Criterion}

/-- The images of an orbit are asked in one of the five ways. -/
theorem exists_course (board : Board) (criterion : Option Criterion)
    (images : List Filter) :
    ∃ asked left count answer, images = asked ++ left ∧
      Course board criterion asked left count answer := by
  cases hfind : images.find? fun f => (f.test board).settlesOrbit criterion with
  | none =>
      have hopen : ∀ f ∈ images, (f.test board).settlesOrbit criterion = false := by
        simpa using List.find?_eq_none.mp hfind
      refine ⟨images, [], ?_⟩
      rw [List.append_nil]
      cases criterion with
      | none =>
          exact ⟨_, _, rfl, .noMatch fun f hf =>
            Reply.settlesAny_eq_false_iff.mp (hopen f hf)⟩
      | some criterion =>
          exact ⟨_, _, rfl, .fullCount fun f hf =>
            Reply.failed_eq_false_iff.mp (hopen f hf)⟩
  | some last =>
      obtain ⟨hlast, before, left, rfl, hopen⟩ :=
        List.find?_eq_some_iff_append.mp hfind
      have hbefore : ∀ f ∈ before, (f.test board).settlesOrbit criterion =
          false := by
        simpa using hopen
      refine ⟨before ++ [last], left, ?_⟩
      rw [List.append_assoc, List.singleton_append]
      cases criterion with
      | none =>
          have hdenied : ∀ f ∈ before, (f.test board).answer = .ok false :=
            fun f hf => Reply.settlesAny_eq_false_iff.mp (hbefore f hf)
          rcases Reply.settlesAny_eq_true_iff.mp hlast with hmatch | ⟨e, hfail⟩
          · exact ⟨_, _, rfl, .firstMatch hdenied hmatch⟩
          · exact ⟨_, _, rfl, .firstFailure hdenied hfail⟩
      | some criterion =>
          have hanswered : ∀ f ∈ before, ∃ b, (f.test board).answer = .ok b :=
            fun f hf => Reply.failed_eq_false_iff.mp (hbefore f hf)
          obtain ⟨e, hfail⟩ := Reply.failed_eq_true_iff.mp hlast
          exact ⟨_, _, rfl, .brokenOff hanswered hfail⟩

/-- What a course says about the replies of an orbit's images. -/
theorem Course.replies {asked left : List Filter} {count : Nat}
    {answer : Except Error Bool}
    (h : Course board criterion asked left count answer) :
    Reply.askUntil (Reply.settlesOrbit criterion) (Filter.test board)
      (asked ++ left) =
      asked.map (Filter.test board) ∧
    Reply.matching (asked.map (Filter.test board)) = count ∧
    (Reply.answers (asked.map (Filter.test board))).map (verdict criterion) =
      answer := by
  cases h with
  | firstMatch hbefore hlast =>
      refine ⟨Reply.askUntil_first (fun f hf => ?_) ?_ left, ?_, ?_⟩
      · exact Reply.settlesAny_eq_false_iff.mpr (hbefore f hf)
      · exact Reply.settlesAny_eq_true_iff.mpr (.inl hlast)
      · rw [Reply.matching_concat, Reply.matching_of_denials hbefore,
          Reply.gave_of_ok hlast]
        rfl
      · rw [List.map_append, Reply.answers_append, Reply.answers_map_of_ok hbefore,
          List.map_singleton, Reply.answers_cons, hlast]
        simp [Except.bind, Except.map, verdict]
  | firstFailure hbefore hlast =>
      refine ⟨Reply.askUntil_first (fun f hf => ?_) ?_ left, ?_, ?_⟩
      · exact Reply.settlesAny_eq_false_iff.mpr (hbefore f hf)
      · exact Reply.settlesAny_eq_true_iff.mpr (.inr ⟨_, hlast⟩)
      · rw [Reply.matching_concat, Reply.matching_of_denials hbefore,
          Reply.gave_of_error hlast]
        rfl
      · rw [Reply.answers_concat_error (fun f hf => ⟨_, hbefore f hf⟩) hlast]
        rfl
  | noMatch h =>
      have hopen : ∀ f ∈ asked, Reply.settlesAny (f.test board) = false :=
        fun f hf => Reply.settlesAny_eq_false_iff.mpr (h f hf)
      refine ⟨?_, Reply.matching_of_denials h, ?_⟩
      · rw [List.append_nil]
        exact Reply.askUntil_eq_map hopen
      · rw [Reply.answers_map_of_ok h]
        simp [Except.map, verdict]
  | @fullCount criterion _ h =>
      have hopen : ∀ f ∈ asked, Reply.failed (f.test board) = false :=
        fun f hf => Reply.failed_eq_false_iff.mpr (h f hf)
      have hanswers := Reply.answers_map_of_ok fun f hf =>
        Reply.answer_eq_gave (h f hf)
      refine ⟨?_, Filter.matching_map_test board asked, ?_⟩
      · rw [List.append_nil]
        exact Reply.askUntil_eq_map hopen
      · rw [← Filter.matching_map_test, Reply.matching_of_answers hanswers,
          hanswers]
        rfl
  | brokenOff hbefore hlast =>
      refine ⟨Reply.askUntil_first (fun f hf => ?_) ?_ left, ?_, ?_⟩
      · exact Reply.failed_eq_false_iff.mpr (hbefore f hf)
      · exact Reply.failed_eq_true_iff.mpr ⟨_, hlast⟩
      · rw [Reply.matching_concat, Filter.matching_map_test,
          Reply.gave_of_error hlast]
        rfl
      · rw [Reply.answers_concat_error hbefore hlast]
        rfl

theorem Course.test_eq {asked left : List Filter} {count : Nat}
    {answer : Except Error Bool}
    (h : Course board criterion asked left count answer) (ts : List Transform)
    (lastCount : Nat) :
    (expanded ts criterion (asked ++ left) lastCount).test board =
      { subject :=
          .expanded ts criterion
            (asked.map (fun f => (f.test board).subject) ++ left) count
        answer
        journal := testJournal (asked.map (Filter.test board)) } := by
  obtain ⟨hasked, hcount, hanswer⟩ := h.replies
  rw [test_expanded, hasked]
  dsimp only
  rw [hcount, hanswer, Reply.subjects, List.map_map, List.length_map,
    List.drop_left]
  rfl

/-- With a criterion a count is a test that answers with what it has counted. -/
theorem count_eq {o : Orbit} {criterion : Criterion}
    (h : o.criterion = some criterion) (board : Board) :
    o.count board =
      { subject := (o.test board).subject
        answer := (o.test board).answer.map fun verdict =>
          if verdict then some (o.test board).subject.lastCount else none
        journal := (o.test board).journal } := by
  rw [count, h]

/-- Testing an expanded orbit asks the images in turn, in one of the five ways
there are for that to end, and this way fixes which images are asked, what
becomes of the orbit, and the answer.  A count needs a criterion, without which
nothing is done.  With one it does what the test does and gives the number of
matches, which may be zero, just where the test succeeds. -/
theorem test_and_count_in_step (o : Orbit) (board : Board) :
    (∀ ts criterion images lastCount, o = .expanded ts criterion images lastCount →
      (∃ asked left count answer, images = asked ++ left ∧
        Course board criterion asked left count answer) ∧
      ∀ asked left count answer, images = asked ++ left →
        Course board criterion asked left count answer →
          Filter.testUntil board (Reply.settlesOrbit criterion) images =
            asked.map (Filter.test board) ∧
          (o.test board).journal.calls =
            asked.flatMap (fun f => (f.test board).journal.calls) ∧
          o.test board =
            { subject :=
                .expanded ts criterion
                  (asked.map (fun f => (f.test board).subject) ++ left) count
              answer
              journal := testJournal (asked.map (Filter.test board)) }) ∧
    (o.criterion = none →
      o.count board = { subject := o, answer := .error .criterionRequired }) ∧
    (o.criterion ≠ none →
      (o.count board).subject = (o.test board).subject ∧
      (o.count board).journal = (o.test board).journal ∧
      (∀ c, (o.count board).answer = .ok (some c) ↔
        (o.test board).answer = .ok true ∧ c = (o.test board).subject.lastCount) ∧
      ((o.count board).answer = .ok none ↔ (o.test board).answer = .ok false) ∧
      ∀ e, (o.count board).answer = .error e ↔
        (o.test board).answer = .error e) := by
  refine ⟨?_, fun hnone => by rw [count, hnone], fun hsome => ?_⟩
  · rintro ts criterion images lastCount rfl
    refine ⟨exists_course board criterion images, ?_⟩
    rintro asked left count answer rfl hcourse
    have htest := hcourse.test_eq ts lastCount
    obtain ⟨hasked, -, -⟩ := hcourse.replies
    refine ⟨by rw [Filter.testUntil_eq_askUntil, hasked], ?_, htest⟩
    rw [htest, calls_testJournal, List.flatMap_map]
  · obtain ⟨criterion, hcriterion⟩ := Option.ne_none_iff_exists'.mp hsome
    rw [count_eq hcriterion board]
    refine ⟨rfl, rfl, ?_⟩
    cases (o.test board).answer with
    | error e => simp [Except.map]
    | ok verdict => cases verdict <;> simp [Except.map, eq_comm]

end Orbit

end BoardQuery
