/-
Calls made in turn.  What the answer to a whole row of calls says about the
single calls, and what the single answers say about the row.
-/
import BoardQuery.Filter.Test
import Mathlib.Data.List.Forall2

namespace BoardQuery

namespace Outcome

variable {α β : Type}

/-- A row of calls succeeds exactly when each of its calls does. -/
theorem answer_inTurn_eq_ok {call : α → Outcome β} {as : List α} {bs : List β} :
    (inTurn call as).answer = .ok bs ↔
      List.Forall₂ (fun a b => (call a).answer = .ok b) as bs := by
  induction as generalizing bs with
  | nil =>
      simp only [inTurn, Except.ok.injEq, List.forall₂_nil_left_iff]
      exact eq_comm
  | cons a rest ih =>
      rw [List.forall₂_cons_left_iff]
      constructor
      · intro h
        obtain ⟨b, more, hb, hmore, rfl⟩ := answer_cons_eq_ok h
        exact ⟨b, more, hb, ih.mp hmore, rfl⟩
      · rintro ⟨b, more, hb, hmore, rfl⟩
        simp [inTurn, cons, hb, ih.mpr hmore, Except.map]

/-- What every single call that succeeds says about its subject and its answer,
a row of calls that succeeds says about all of them. -/
theorem forall_of_answer_inTurn_eq_ok {call : α → Outcome β} {as : List α}
    {bs : List β} {P : α → Prop} {Q : β → Prop}
    (h : (inTurn call as).answer = .ok bs)
    (hcall : ∀ a ∈ as, ∀ b, (call a).answer = .ok b → P a ∧ Q b) :
    (∀ a ∈ as, P a) ∧ ∀ b ∈ bs, Q b := by
  rw [answer_inTurn_eq_ok] at h
  induction h with
  | nil => simp
  | @cons a b as bs hb _ ih =>
      obtain ⟨hP, hQ⟩ := hcall a List.mem_cons_self b hb
      obtain ⟨hPs, hQs⟩ := ih fun a' ha' => hcall a' (List.mem_cons_of_mem a ha')
      exact ⟨List.forall_mem_cons.mpr ⟨hP, hPs⟩, List.forall_mem_cons.mpr ⟨hQ, hQs⟩⟩

theorem exists_error_of_ne_ok {o : Outcome α} (h : ∀ a, o.answer ≠ .ok a) :
    ∃ e, o.answer = .error e := by
  cases hanswer : o.answer with
  | ok a => exact absurd hanswer (h a)
  | error e => exact ⟨e, rfl⟩

end Outcome

namespace Reply

variable {σ α β : Type}

@[simp] theorem answers_nil : answers ([] : List (Reply σ β)) = .ok [] := rfl

theorem answers_cons (r : Reply σ β) (rest : List (Reply σ β)) :
    answers (r :: rest) = r.answer.bind fun b => (answers rest).map (b :: ·) := by
  rw [answers, List.mapM_cons]
  rfl

theorem failed_of_ok {r : Reply σ β} {b : β} (h : r.answer = .ok b) :
    r.failed = false := by
  simp [failed, h]

theorem gave_of_ok {r : Reply σ Bool} {b verdict : Bool} (h : r.answer = .ok b) :
    r.gave verdict = (b == verdict) := by
  simp [gave, h]

/-- An answer that is a verdict is the one that was given. -/
theorem answer_eq_gave {r : Reply σ Bool} (h : ∃ b, r.answer = .ok b) :
    r.answer = .ok (r.gave true) := by
  obtain ⟨b, hb⟩ := h
  rw [gave_of_ok hb, hb, beq_true]

theorem answers_map_of_ok {ask : α → Reply σ β} {value : α → β} {as : List α}
    (h : ∀ a ∈ as, (ask a).answer = .ok (value a)) :
    answers (as.map ask) = .ok (as.map value) := by
  induction as with
  | nil => rfl
  | cons a rest ih =>
      have hrest := ih fun b hb => h b (List.mem_cons_of_mem a hb)
      simp [answers_cons, h a List.mem_cons_self, hrest, Except.bind, Except.map]

theorem answers_append (replies later : List (Reply σ β)) :
    answers (replies ++ later) =
      (answers replies).bind fun bs => (answers later).map (bs ++ ·) := by
  rw [answers, List.mapM_append]
  rfl

/-- When a row of answers fails, one of its replies is that failure. -/
theorem exists_of_answers_eq_error {replies : List (Reply σ β)} {e : Error}
    (h : answers replies = .error e) : ∃ r ∈ replies, r.answer = .error e := by
  induction replies with
  | nil => simp at h
  | cons r rest ih =>
      rw [answers_cons] at h
      cases hr : r.answer with
      | error e' =>
          simp only [hr, Except.bind, Except.error.injEq] at h
          exact ⟨r, List.mem_cons_self, h ▸ hr⟩
      | ok b =>
          cases hrest : answers rest with
          | ok bs => simp [hr, hrest, Except.bind, Except.map] at h
          | error e' =>
              simp only [hr, hrest, Except.bind, Except.map,
                Except.error.injEq] at h
              obtain ⟨s, hs, hanswer⟩ := ih (h ▸ hrest)
              exact ⟨s, List.mem_cons_of_mem r hs, hanswer⟩

/-- Whoever is asked up to a decision is asked in order, from the first one on. -/
theorem askUntil_eq_map_take (decides : Reply σ β → Bool) (ask : α → Reply σ β)
    (as : List α) :
    askUntil decides ask as =
      (as.take (askUntil decides ask as).length).map ask := by
  induction as with
  | nil => rfl
  | cons a rest ih =>
      by_cases hd : decides (ask a) = true
      · simp [askUntil, hd]
      · simp only [askUntil, hd, Bool.false_eq_true, ↓reduceIte, List.length_cons,
          List.take_succ_cons, List.map_cons]
        rw [← ih]

theorem length_askUntil_le (decides : Reply σ β → Bool) (ask : α → Reply σ β)
    (as : List α) :
    (askUntil decides ask as).length ≤ as.length := by
  have h := congrArg List.length (askUntil_eq_map_take decides ask as)
  simp only [List.length_map, List.length_take] at h
  omega

/-- Every reply is the reply of someone who was to be asked. -/
theorem exists_of_mem_askUntil {decides : Reply σ β → Bool} {ask : α → Reply σ β}
    {as : List α} {r : Reply σ β} (h : r ∈ askUntil decides ask as) :
    ∃ a ∈ as, ask a = r := by
  rw [askUntil_eq_map_take] at h
  obtain ⟨a, ha, rfl⟩ := List.mem_map.mp h
  exact ⟨a, List.mem_of_mem_take ha, rfl⟩

/-- A row fails only with the failure of someone who was asked. -/
theorem exists_of_map_answers_eq_error {γ : Type} {g : List β → γ}
    {decides : Reply σ β → Bool} {ask : α → Reply σ β} {as : List α} {e : Error}
    (h : (answers (askUntil decides ask as)).map g = .error e) :
    ∃ a ∈ as, (ask a).answer = .error e := by
  cases hanswers : answers (askUntil decides ask as) with
  | ok bs => simp [hanswers, Except.map] at h
  | error e' =>
      simp only [hanswers, Except.map, Except.error.injEq] at h
      obtain ⟨r, hr, hanswer⟩ := exists_of_answers_eq_error hanswers
      obtain ⟨a, ha, rfl⟩ := exists_of_mem_askUntil hr
      exact ⟨a, ha, h ▸ hanswer⟩

/-- Those who do not decide are asked, and then it goes on with the others. -/
theorem askUntil_append {decides : Reply σ β → Bool} {ask : α → Reply σ β}
    {before : List α} (h : ∀ a ∈ before, decides (ask a) = false) (rest : List α) :
    askUntil decides ask (before ++ rest) =
      before.map ask ++ askUntil decides ask rest := by
  induction before with
  | nil => rfl
  | cons a before ih =>
      obtain ⟨ha, hbefore⟩ := List.forall_mem_cons.mp h
      rw [List.cons_append, askUntil, if_neg (Bool.eq_false_iff.mp ha), ih hbefore]
      rfl

/-- The first one to decide is the last one to be asked. -/
theorem askUntil_first {decides : Reply σ β → Bool} {ask : α → Reply σ β}
    {before : List α} {last : α} (hbefore : ∀ a ∈ before, decides (ask a) = false)
    (hlast : decides (ask last) = true) (left : List α) :
    askUntil decides ask (before ++ [last] ++ left) =
      (before ++ [last]).map ask := by
  rw [List.append_assoc, askUntil_append hbefore, List.singleton_append, askUntil,
    if_pos hlast, List.map_append, List.map_singleton]

/-- A row of answers that a failure ends is that failure. -/
theorem answers_concat_error {ask : α → Reply σ β} {before : List α} {last : α}
    {e : Error} (hbefore : ∀ a ∈ before, ∃ b, (ask a).answer = .ok b)
    (hlast : (ask last).answer = .error e) :
    answers ((before ++ [last]).map ask) = .error e := by
  induction before with
  | nil =>
      rw [List.nil_append, List.map_singleton, answers_cons, hlast]
      rfl
  | cons a before ih =>
      obtain ⟨⟨b, ha⟩, hbefore⟩ := List.forall_mem_cons.mp hbefore
      rw [List.cons_append, List.map_cons, answers_cons, ha, ih hbefore]
      rfl

theorem askUntil_eq_map {decides : Reply σ β → Bool} {ask : α → Reply σ β}
    {as : List α} (h : ∀ a ∈ as, decides (ask a) = false) :
    askUntil decides ask as = as.map ask := by
  simpa [askUntil] using askUntil_append h []

/-- A row that goes on until a decision succeeds when its first reply does and
either decides or is followed by a row that succeeds. -/
theorem answers_askUntil_cons_eq_ok {decides : Reply σ β → Bool}
    {ask : α → Reply σ β} {a : α} {rest : List α} {bs : List β} :
    answers (askUntil decides ask (a :: rest)) = .ok bs ↔
      ∃ b, (ask a).answer = .ok b ∧
      if decides (ask a) then bs = [b]
      else ∃ more, answers (askUntil decides ask rest) = .ok more ∧
        bs = b :: more := by
  rw [askUntil]
  cases ha : (ask a).answer with
  | error e => split_ifs <;> simp [answers_cons, ha, Except.bind]
  | ok b =>
      split_ifs with hdecides
      · simp [answers_cons, ha, Except.bind, Except.map, eq_comm]
      · cases hrest : answers (askUntil decides ask rest) with
        | error e => simp [answers_cons, ha, hrest, Except.bind, Except.map]
        | ok more =>
            simp [answers_cons, ha, hrest, Except.bind, Except.map, eq_comm]

/-- Calls made up to the first failure succeed together only when each one does. -/
theorem exists_ok_of_answers_askUntil_failed {ask : α → Reply σ β} {as : List α}
    {bs : List β} (h : answers (askUntil failed ask as) = .ok bs) :
    ∀ a ∈ as, ∃ b, (ask a).answer = .ok b := by
  induction as generalizing bs with
  | nil => simp
  | cons a rest ih =>
      obtain ⟨b, ha, hmore⟩ := answers_askUntil_cons_eq_ok.mp h
      rw [failed_of_ok ha, if_neg Bool.false_ne_true] at hmore
      obtain ⟨more, hrest, _⟩ := hmore
      exact List.forall_mem_cons.mpr ⟨⟨b, ha⟩, ih hrest⟩

/-- Calls made up to the first failure are all done exactly when each one is. -/
theorem done_askUntil_failed_iff {ask : α → Reply σ Unit} {as : List α} :
    (answers (askUntil failed ask as)).map (fun _ => ()) = .ok () ↔
      ∀ a ∈ as, (ask a).answer = .ok () := by
  constructor
  · intro h
    cases hanswers : answers (askUntil failed ask as) with
    | error e => simp [hanswers, Except.map] at h
    | ok dones => exact fun a ha =>
        (exists_ok_of_answers_askUntil_failed hanswers a ha).choose_spec
  · intro h
    rw [askUntil_eq_map fun a ha => failed_of_ok (h a ha), answers_map_of_ok h]
    rfl

/-- When everyone was asked, the subjects are those of the replies. -/
@[simp] theorem subjects_map (ask : σ → Reply σ β) (as : List σ) :
    subjects as (as.map ask) = as.map fun a => (ask a).subject := by
  simp [subjects, Function.comp_def]

/-- What asking leaves of a subject is what it leaves of those who were asked, and
the others as they were. -/
theorem map_subjects_askUntil {τ : Type} {g : σ → τ} {decides : Reply σ β → Bool}
    {ask : σ → Reply σ β} {as : List σ} (h : ∀ a ∈ as, g (ask a).subject = g a) :
    (subjects as (askUntil decides ask as)).map g = as.map g := by
  let n := (askUntil decides ask as).length
  have hasked : (as.take n).map (fun a => g (ask a).subject) = (as.take n).map g :=
    List.map_congr_left fun a ha => h a (List.mem_of_mem_take ha)
  calc (subjects as (askUntil decides ask as)).map g
      = (as.take n).map (fun a => g (ask a).subject) ++ (as.drop n).map g := by
        rw [subjects, askUntil_eq_map_take]
        simp [n, Nat.min_eq_left (length_askUntil_le decides ask as),
          Function.comp_def]
    _ = as.map g := by rw [hasked, ← List.map_append, List.take_append_drop]

/-- A subject after asking is one of those that replied or one that was not
asked. -/
theorem mem_subjects_askUntil {decides : Reply σ β → Bool} {ask : σ → Reply σ β}
    {as : List σ} {s : σ} (h : s ∈ subjects as (askUntil decides ask as)) :
    (∃ a ∈ as, (ask a).subject = s) ∨ s ∈ as := by
  rcases List.mem_append.mp h with hasked | hleft
  · obtain ⟨r, hr, rfl⟩ := List.mem_map.mp hasked
    obtain ⟨a, ha, rfl⟩ := exists_of_mem_askUntil hr
    exact Or.inl ⟨a, ha, rfl⟩
  · exact Or.inr (List.mem_of_mem_drop hleft)

/-- Each subject is there after asking, either as its reply left it or as it was. -/
theorem mem_subjects_or_mem {decides : Reply σ β → Bool} {ask : σ → Reply σ β}
    {as : List σ} {a : σ} (ha : a ∈ as) :
    (ask a).subject ∈ subjects as (askUntil decides ask as) ∨
      a ∈ subjects as (askUntil decides ask as) := by
  rw [← List.take_append_drop (askUntil decides ask as).length as,
    List.mem_append] at ha
  rcases ha with hasked | hleft
  · refine .inl (List.mem_append_left _ (List.mem_map.mpr ⟨ask a, ?_, rfl⟩))
    rw [askUntil_eq_map_take]
    exact List.mem_map_of_mem hasked
  · exact .inr (List.mem_append_right _ hleft)

@[simp] theorem length_subjects_askUntil (decides : Reply σ β → Bool)
    (ask : σ → Reply σ β) (as : List σ) :
    (subjects as (askUntil decides ask as)).length = as.length := by
  have hle := length_askUntil_le decides ask as
  simp only [subjects, List.length_append, List.length_map, List.length_drop]
  omega

/-- Whether two rows of replies differ in nothing but their subjects. -/
def Alike {τ : Type} (replies : List (Reply σ β)) (replies' : List (Reply τ β)) :
    Prop :=
  List.Forall₂ (fun r r' => r.toOutcome = r'.toOutcome) replies replies'

section Alike

variable {τ : Type}

theorem gave_congr {r : Reply σ Bool} {r' : Reply τ Bool}
    (h : r.toOutcome = r'.toOutcome) (verdict : Bool) :
    r.gave verdict = r'.gave verdict := by
  have hanswer := congrArg Outcome.answer h
  simp [gave, hanswer]

/-- Asking in two ways with the same outcomes gives rows that are alike. -/
theorem alike_askUntil {ask : α → Reply σ β} {ask' : α → Reply τ β} {as : List α}
    {decides : Reply σ β → Bool} {decides' : Reply τ β → Bool}
    (h : ∀ a ∈ as, (ask a).toOutcome = (ask' a).toOutcome)
    (hdecides : ∀ a ∈ as, decides (ask a) = decides' (ask' a)) :
    Alike (askUntil decides ask as) (askUntil decides' ask' as) := by
  induction as with
  | nil => exact .nil
  | cons a rest ih =>
      have hrest := ih (fun b hb => h b (List.mem_cons_of_mem a hb))
        fun b hb => hdecides b (List.mem_cons_of_mem a hb)
      have ha := h a List.mem_cons_self
      have hd := hdecides a List.mem_cons_self
      unfold askUntil
      by_cases hdec : decides' (ask' a) = true
      · simp only [hd, hdec, ↓reduceIte]
        exact .cons ha .nil
      · simp only [hd, hdec, Bool.false_eq_true, ↓reduceIte]
        exact .cons ha hrest

namespace Alike

theorem answers_eq {replies : List (Reply σ β)} {replies' : List (Reply τ β)}
    (h : Alike replies replies') : answers replies = answers replies' := by
  induction h with
  | nil => rfl
  | cons ha _ ih => rw [answers_cons, answers_cons, ih, congrArg Outcome.answer ha]

theorem journals_eq {replies : List (Reply σ β)} {replies' : List (Reply τ β)}
    (h : Alike replies replies') : journals replies = journals replies' := by
  induction h with
  | nil => rfl
  | cons ha _ ih =>
      simp only [journals, List.flatMap_cons] at ih ⊢
      rw [ih, congrArg Outcome.journal ha]

variable {replies : List (Reply σ Bool)} {replies' : List (Reply τ Bool)}

theorem matching_eq (h : Alike replies replies') :
    matching replies = matching replies' := by
  induction h with
  | nil => rfl
  | cons ha _ ih =>
      simp only [matching, List.countP_cons] at ih ⊢
      rw [ih, gave_congr ha]

theorem testJournal_eq (h : Alike replies replies') :
    Orbit.testJournal replies = Orbit.testJournal replies' := by
  simp only [Orbit.testJournal]
  generalize 0 = i
  induction h generalizing i with
  | nil => rfl
  | cons ha _ ih =>
      simp only [List.zipIdx_cons, List.flatMap_cons]
      rw [ih, gave_congr ha, congrArg Outcome.journal ha]

end Alike

end Alike

section Verdicts

variable {ask : α → Reply σ Bool} {verdict : α → Bool} {as : List α}

/-- Asking up to the first denial settles whether all agree. -/
theorem all_answers_askUntil (h : ∀ a ∈ as, (ask a).answer = .ok (verdict a)) :
    (answers (askUntil settlesAll ask as)).map (fun verdicts => verdicts.all id) =
      .ok (as.all verdict) := by
  induction as with
  | nil => rfl
  | cons a rest ih =>
      have ha := h a List.mem_cons_self
      have hrest := ih fun b hb => h b (List.mem_cons_of_mem a hb)
      cases hv : verdict a with
      | false =>
          simp [askUntil, settlesAll, gave, failed, answers_cons, ha, hv,
            Except.bind, Except.map]
      | true =>
          cases hmore : answers (askUntil settlesAll ask rest) with
          | error e => simp [hmore, Except.map] at hrest
          | ok more =>
              simp only [hmore, Except.map, Except.ok.injEq] at hrest
              simp [askUntil, settlesAll, gave, failed, answers_cons, ha, hv, hmore,
                hrest, Except.bind, Except.map]

/-- Asking up to the first consent settles whether any agree. -/
theorem any_answers_askUntil (h : ∀ a ∈ as, (ask a).answer = .ok (verdict a)) :
    (answers (askUntil settlesAny ask as)).map (fun verdicts => verdicts.any id) =
      .ok (as.any verdict) := by
  induction as with
  | nil => rfl
  | cons a rest ih =>
      have ha := h a List.mem_cons_self
      have hrest := ih fun b hb => h b (List.mem_cons_of_mem a hb)
      cases hv : verdict a with
      | true =>
          simp [askUntil, settlesAny, gave, failed, answers_cons, ha, hv,
            Except.bind, Except.map]
      | false =>
          cases hmore : answers (askUntil settlesAny ask rest) with
          | error e => simp [hmore, Except.map] at hrest
          | ok more =>
              simp only [hmore, Except.map, Except.ok.injEq] at hrest
              simp [askUntil, settlesAny, gave, failed, answers_cons, ha, hv, hmore,
                hrest, Except.bind, Except.map]

theorem matching_askUntil_failed (h : ∀ a ∈ as, (ask a).answer = .ok (verdict a)) :
    matching (askUntil failed ask as) = as.countP verdict := by
  rw [askUntil_eq_map fun a ha => failed_of_ok (h a ha), matching, List.countP_map]
  apply List.countP_congr
  intro a ha
  simp [gave_of_ok (h a ha)]

/-- Asking up to the first consent counts one that agrees, if there is any. -/
theorem matching_askUntil_settlesAny
    (h : ∀ a ∈ as, (ask a).answer = .ok (verdict a)) :
    matching (askUntil settlesAny ask as) = min 1 (as.countP verdict) := by
  induction as with
  | nil => rfl
  | cons a rest ih =>
      obtain ⟨ha, hrest⟩ := List.forall_mem_cons.mp h
      cases hv : verdict a with
      | true => simp [askUntil, settlesAny, gave, ha, hv, matching]
      | false =>
          have hmore := ih hrest
          rw [matching] at hmore
          simp [askUntil, settlesAny, gave, failed, ha, hv, matching, hmore]

/-- Asking up to the first consent meets one at most. -/
theorem matching_askUntil_settlesAny_le (ask : α → Reply σ Bool) (as : List α) :
    matching (askUntil settlesAny ask as) ≤ 1 := by
  induction as with
  | nil => simp [askUntil, matching]
  | cons a rest ih =>
      cases hmatch : (ask a).gave true with
      | true => simp [askUntil, settlesAny, hmatch, matching]
      | false =>
          rw [askUntil]
          split_ifs
          · simp [matching, hmatch]
          · simpa [matching, hmatch] using ih

/-- What counts as a match among replies that all succeeded. -/
theorem matching_of_answers {replies : List (Reply σ Bool)} {bs : List Bool}
    (h : answers replies = .ok bs) : matching replies = bs.count true := by
  induction replies generalizing bs with
  | nil =>
      obtain rfl := Except.ok.inj h
      rfl
  | cons r rest ih =>
      rw [answers_cons] at h
      cases hr : r.answer with
      | error e => simp [hr, Except.bind] at h
      | ok b =>
          rw [hr, Except.bind] at h
          obtain ⟨more, hmore, rfl⟩ := exists_of_map_eq_ok h
          rw [matching, List.countP_cons, ← matching, ih hmore, gave_of_ok hr,
            List.count_cons]

end Verdicts

/-- Whether a rule of decision heeds nothing but answers. -/
def HeedsAnswers (decides : Reply σ Bool → Bool) : Prop :=
  ∀ r r' : Reply σ Bool, r.answer = r'.answer → decides r = decides r'

theorem heedsAnswers_settlesAll : HeedsAnswers (settlesAll (σ := σ)) := by
  intro r r' h
  simp only [settlesAll, failed, gave, h]

theorem heedsAnswers_settlesAny : HeedsAnswers (settlesAny (σ := σ)) := by
  intro r r' h
  simp only [settlesAny, failed, gave, h]

theorem heedsAnswers_settlesOrbit (criterion : Option Criterion) :
    HeedsAnswers (settlesOrbit (σ := σ) criterion) := by
  intro r r' h
  cases criterion with
  | none => exact heedsAnswers_settlesAny r r' h
  | some _ => simp only [settlesOrbit, failed, h]

/-- Where each answer of one row is also the answer in another, the other row
comes to the same decision. -/
theorem answers_askUntil_of_forall₂ {γ : Type} {decides : Reply σ Bool → Bool}
    (hdecides : HeedsAnswers decides) {ask : α → Reply σ Bool}
    {ask' : γ → Reply σ Bool} {as : List α} {cs : List γ}
    (h : List.Forall₂ (fun a c => ∀ b, (ask a).answer = .ok b →
      (ask' c).answer = .ok b) as cs) :
    ∀ bs, answers (askUntil decides ask as) = .ok bs →
      answers (askUntil decides ask' cs) = .ok bs := by
  induction h with
  | nil => exact fun bs hbs => hbs
  | @cons a c as cs hac _ ih =>
      intro bs hbs
      obtain ⟨b, ha, hrest⟩ := answers_askUntil_cons_eq_ok.mp hbs
      have hc := hac b ha
      rw [hdecides _ _ (ha.trans hc.symm)] at hrest
      refine answers_askUntil_cons_eq_ok.mpr ⟨b, hc, ?_⟩
      split_ifs at hrest ⊢
      · exact hrest
      · obtain ⟨more, hmore, hbs⟩ := hrest
        exact ⟨more, ih more hmore, hbs⟩

end Reply

/-- Of several calls in turn, number `i` is the first that fails, and it fails
with `e`. -/
structure FirstFailure {α β : Type} (answer : α → Except Error β) (as : List α)
    (i : Nat) (e : Error) : Prop where
  fails : ∃ a, as[i]? = some a ∧ answer a = .error e
  before : ∀ a ∈ as.take i, ∃ b, answer a = .ok b

namespace FirstFailure

variable {α β γ σ : Type} {answer : α → Except Error β} {as : List α} {i : Nat}
  {e : Error}

theorem head {a : α} (h : answer a = .error e) :
    FirstFailure answer (a :: as) 0 e :=
  ⟨⟨a, rfl, h⟩, by simp⟩

/-- The first call succeeds and a later one is the first to fail. -/
theorem cons {a : α} {b : β} (ha : answer a = .ok b)
    (h : FirstFailure answer as i e) :
    FirstFailure answer (a :: as) (i + 1) e := by
  refine ⟨by simpa using h.fails, ?_⟩
  rw [List.take_succ_cons, List.forall_mem_cons]
  exact ⟨⟨b, ha⟩, h.before⟩

/-- The first failure is that of the first call or one of the calls after it. -/
theorem cases_cons {a : α} (h : FirstFailure answer (a :: as) i e) :
    i = 0 ∧ answer a = .error e ∨
      ∃ j b, i = j + 1 ∧ answer a = .ok b ∧ FirstFailure answer as j e := by
  obtain ⟨hfails, hbefore⟩ := h
  cases i with
  | zero => exact .inl ⟨rfl, by simpa using hfails⟩
  | succ j =>
      rw [List.take_succ_cons, List.forall_mem_cons] at hbefore
      obtain ⟨⟨b, ha⟩, hrest⟩ := hbefore
      exact .inr ⟨j, b, rfl, ha, by simpa using hfails, hrest⟩

/-- Calls in turn all succeed, or one of them is the first that fails. -/
theorem all_ok_or (answer : α → Except Error β) (as : List α) :
    (∀ a ∈ as, ∃ b, answer a = .ok b) ∨ ∃ i e, FirstFailure answer as i e := by
  induction as with
  | nil => exact .inl (by simp)
  | cons a rest ih =>
      cases ha : answer a with
      | error e => exact .inr ⟨0, e, head ha⟩
      | ok b =>
          rcases ih with hall | ⟨i, e, h⟩
          · exact .inl (List.forall_mem_cons.mpr ⟨⟨b, ha⟩, hall⟩)
          · exact .inr ⟨i + 1, e, cons ha h⟩

/-- A row of calls ends with the first one that fails. -/
theorem inTurn {call : α → Outcome β}
    (h : FirstFailure (fun a => (call a).answer) as i e) :
    Outcome.inTurn call as =
      ⟨.error e, (as.take (i + 1)).flatMap fun a => (call a).journal⟩ := by
  induction as generalizing i with
  | nil => simpa using h.fails
  | cons a rest ih =>
      rcases h.cases_cons with ⟨rfl, ha⟩ | ⟨j, b, rfl, ha, hrest⟩
      · simp [Outcome.inTurn, Outcome.cons, ha]
      · simp [Outcome.inTurn, Outcome.cons, ha, ih hrest, Except.map]

theorem askUntil {ask : α → Reply σ β}
    (h : FirstFailure (fun a => (ask a).answer) as i e) :
    Reply.askUntil Reply.failed ask as = (as.take (i + 1)).map ask ∧
      Reply.answers (Reply.askUntil Reply.failed ask as) = .error e := by
  obtain ⟨⟨last, hlast, hfails⟩, hbefore⟩ := h
  have htake : as.take (i + 1) = as.take i ++ [last] := by
    rw [List.take_add_one, hlast]
    rfl
  have hsplit : as.take i ++ [last] ++ as.drop (i + 1) = as := by
    rw [← htake, List.take_append_drop]
  have hopen : ∀ a ∈ as.take i, (ask a).failed = false := by
    intro a ha
    obtain ⟨b, hb⟩ := hbefore a ha
    exact Reply.failed_of_ok hb
  have hdecides : (ask last).failed = true := by
    simp [Reply.failed, hfails]
  have hasked := Reply.askUntil_first hopen hdecides (as.drop (i + 1))
  rw [hsplit] at hasked
  rw [hasked, htake]
  exact ⟨rfl, Reply.answers_concat_error hbefore hfails⟩

end FirstFailure

/-- A row of calls that all succeed is journalled call by call. -/
theorem Outcome.journal_inTurn_of_ok {α β : Type} {call : α → Outcome β}
    {as : List α} (h : ∀ a ∈ as, ∃ b, (call a).answer = .ok b) :
    (inTurn call as).journal = as.flatMap fun a => (call a).journal := by
  induction as with
  | nil => rfl
  | cons a rest ih =>
      obtain ⟨⟨b, ha⟩, hrest⟩ := List.forall_mem_cons.mp h
      simp [inTurn, cons, ha, ih hrest]

/-- Whatever a row of calls journals, one of the calls does. -/
theorem Outcome.exists_of_mem_journal_inTurn {α β : Type} {call : α → Outcome β}
    {as : List α} {event : Event} (h : event ∈ (inTurn call as).journal) :
    ∃ a ∈ as, event ∈ (call a).journal := by
  rcases FirstFailure.all_ok_or (fun a => (call a).answer) as with
    hall | ⟨i, e, hfirst⟩
  · rw [journal_inTurn_of_ok hall] at h
    exact List.mem_flatMap.mp h
  · rw [hfirst.inTurn] at h
    obtain ⟨a, ha, hevent⟩ := List.mem_flatMap.mp h
    exact ⟨a, List.mem_of_mem_take ha, hevent⟩

end BoardQuery
