/-
Answers to calls.  An outcome is an answer with the journal of the call; a
reply is an outcome of a call that may have changed its subject, together with
the subject after it.  Calls made in turn stop at the first failure, and the
journal keeps what was done up to there.
-/
import BoardQuery.Journal

namespace BoardQuery

/-- A success that was passed through `f` comes from a success. -/
theorem exists_of_map_eq_ok {ε α β : Type} {f : α → β} {x : Except ε α} {b : β}
    (h : x.map f = .ok b) : ∃ a, x = .ok a ∧ f a = b := by
  cases x with
  | error e => simp [Except.map] at h
  | ok a => exact ⟨a, rfl, by simpa [Except.map] using h⟩

/-- The answer to a call, with the journal of it. -/
structure Outcome (α : Type) where
  answer : Except Error α
  journal : Journal := []

namespace Outcome

def map {α β : Type} (f : α → β) (o : Outcome α) : Outcome β :=
  ⟨o.answer.map f, o.journal⟩

/-- The outcome of a first call and, unless it fails, of the calls after it. -/
def cons {α : Type} (first : Outcome α) (rest : Unit → Outcome (List α)) :
    Outcome (List α) :=
  match first.answer with
  | .error e => ⟨.error e, first.journal⟩
  | .ok a =>
      let after := rest ()
      ⟨after.answer.map (a :: ·), first.journal ++ after.journal⟩

/-- Makes calls in turn, up to the first one that fails. -/
def inTurn {α β : Type} (call : α → Outcome β) : List α → Outcome (List β)
  | [] => { answer := .ok [] }
  | a :: rest => (call a).cons fun _ => inTurn call rest

/-- A row of calls succeeds when the first one and the others do. -/
theorem answer_cons_eq_ok {α : Type} {first : Outcome α}
    {rest : Unit → Outcome (List α)} {values : List α}
    (h : (first.cons rest).answer = .ok values) :
    ∃ a more, first.answer = .ok a ∧ (rest ()).answer = .ok more ∧
      values = a :: more := by
  simp only [Outcome.cons] at h
  split at h
  · simp at h
  · next a ha =>
      cases hrest : (rest ()).answer with
      | error e => simp [hrest, Except.map] at h
      | ok more =>
          simp only [hrest, Except.map, Except.ok.injEq] at h
          exact ⟨a, more, ha, rfl, h.symm⟩

/-- An outcome passed through `f` succeeds when it does itself. -/
theorem answer_map_eq_ok {α β : Type} {f : α → β} {o : Outcome α} {b : β}
    (h : (o.map f).answer = .ok b) : ∃ a, o.answer = .ok a ∧ f a = b :=
  exists_of_map_eq_ok h

end Outcome

/-- The answer to a call that may change its subject: the subject after the
call, the answer and the journal. -/
structure Reply (σ α : Type) extends Outcome α where
  subject : σ

namespace Reply

def on {σ τ α : Type} (f : σ → τ) (r : Reply σ α) : Reply τ α :=
  { toOutcome := r.toOutcome, subject := f r.subject }

def failed {σ α : Type} (r : Reply σ α) : Bool :=
  match r.answer with
  | .ok _ => false
  | .error _ => true

/-- Whether the call was answered with `verdict`. -/
def gave {σ : Type} (verdict : Bool) (r : Reply σ Bool) : Bool :=
  match r.answer with
  | .ok b => b == verdict
  | .error _ => false

/-- Asks in turn, up to and including the first reply that decides. -/
def askUntil {σ α β : Type} (decides : Reply σ β → Bool) (ask : α → Reply σ β) :
    List α → List (Reply σ β)
  | [] => []
  | a :: rest =>
      let r := ask a
      if decides r then [r] else r :: askUntil decides ask rest

theorem askUntil_map {σ α β γ : Type} (decides : Reply σ β → Bool)
    (ask : γ → Reply σ β) (f : α → γ) (as : List α) :
    askUntil decides ask (as.map f) = askUntil decides (fun a => ask (f a)) as := by
  induction as with
  | nil => rfl
  | cons a rest ih => simp [askUntil, ih]

/-- What is known of the members of a list does not matter to the asking. -/
@[simp] theorem askUntil_attach {σ α β : Type} (decides : Reply σ β → Bool)
    (ask : α → Reply σ β) (as : List α) :
    askUntil decides (fun a => ask a.1) as.attach = askUntil decides ask as := by
  rw [← askUntil_map decides ask Subtype.val as.attach, List.attach_map_subtype_val]

/-- The subjects after those of them that were asked have replied. -/
def subjects {σ α : Type} (before : List σ) (replies : List (Reply σ α)) : List σ :=
  replies.map subject ++ before.drop replies.length

def answers {σ α : Type} (replies : List (Reply σ α)) : Except Error (List α) :=
  replies.mapM fun r => r.answer

/-- The journals of all replies, one after the other. -/
def journals {σ α : Type} (replies : List (Reply σ α)) : Journal :=
  replies.flatMap fun r => r.journal

end Reply

end BoardQuery
