/-
Tests that cannot fail.  A test fails when it comes to a leaf that fails or to
an orbit that was not expanded.  A tree that holds neither answers every board,
and after a successful expansion there are no orbits of that kind.
-/
import BoardQuery.Proofs.Meaning

namespace BoardQuery

namespace Filter

def matching (board : Board) (f : Filter) : Bool :=
  (f.test board).gave true

/-- Every verdict that a test of the second filter comes to, a test of the first
comes to. -/
def Follows (board : Board) (f g : Filter) : Prop :=
  ∀ b, (g.test board).answer = .ok b → (f.test board).answer = .ok b

section Follows

variable {board : Board} {fs gs : List Filter}

theorem Follows.all (h : List.Forall₂ (Follows board) fs gs) :
    Follows board (.all fs) (.all gs) := by
  intro b hb
  rw [test_all] at hb ⊢
  obtain ⟨bs, hbs, rfl⟩ := exists_of_map_eq_ok hb
  have hrow :=
    Reply.answers_askUntil_of_forall₂ Reply.heedsAnswers_settlesAll h.flip bs hbs
  simp only [hrow, Except.map]

theorem Follows.any (h : List.Forall₂ (Follows board) fs gs) :
    Follows board (.any fs) (.any gs) := by
  intro b hb
  rw [test_any] at hb ⊢
  obtain ⟨bs, hbs, rfl⟩ := exists_of_map_eq_ok hb
  have hrow :=
    Reply.answers_askUntil_of_forall₂ Reply.heedsAnswers_settlesAny h.flip bs hbs
  simp only [hrow, Except.map]

end Follows

end Filter

namespace Orbit

/-- Whether it is enough for an orbit that this many images match. -/
def enough (criterion : Option Criterion) (matching : Nat) : Bool :=
  match criterion with
  | none => 0 < matching
  | some k => k.accepts matching

/-- How many images an orbit counts when this many match.  Without a criterion
it stops at the first one. -/
def counted (criterion : Option Criterion) (matching : Nat) : Nat :=
  match criterion with
  | none => min 1 matching
  | some _ => matching

/-- The verdict and the count of an orbit whose images all answer. -/
theorem test_of_answers {board : Board} {images : List Filter}
    (h : ∀ f ∈ images, ∃ b, (f.test board).answer = .ok b) (ts : List Transform)
    (criterion : Option Criterion) (count : Nat) :
    let r := (expanded ts criterion images count).test board
    r.answer = .ok (enough criterion (images.countP (Filter.matching board))) ∧
    r.subject.lastCount = counted criterion
      (images.countP (Filter.matching board)) := by
  have hverdicts : ∀ f ∈ images, (f.test board).answer = .ok (f.matching board) :=
    fun f hf => Reply.answer_eq_gave (h f hf)
  obtain ⟨hanswer, hcount⟩ := test_of_verdicts hverdicts ts criterion count
  rw [List.map_id'] at hanswer hcount
  cases criterion with
  | none =>
      refine ⟨?_, ?_⟩
      · simp only [hanswer, enough, List.countP_pos_iff, List.any_eq]
      · rw [test_expanded]
        exact Reply.matching_askUntil_settlesAny hverdicts
  | some k => exact ⟨hanswer, hcount (Option.some_ne_none k)⟩

end Orbit

namespace Filter

/-- Every orbit in the tree is expanded. -/
def Settled (f : Filter) : Prop :=
  ∀ g ∈ f.nodes, ∀ o, g = .orbit o → o.isExpanded = true

/-- No leaf in the tree fails on the board. -/
def Unfailing (board : Board) (f : Filter) : Prop :=
  ∀ leaf ∈ f.nodes, leaf.isLeaf = true → ∃ b, (leaf.test board).answer = .ok b

section Parts

variable {board : Board} {parts : List Filter}

theorem settled_all : (all parts).Settled ↔ ∀ f ∈ parts, f.Settled := by
  rw [Settled, forall_mem_nodes_all]
  exact and_iff_right nofun

theorem settled_any : (any parts).Settled ↔ ∀ f ∈ parts, f.Settled := by
  rw [Settled, forall_mem_nodes_any]
  exact and_iff_right nofun

theorem settled_expanded {ts : List Transform} {criterion : Option Criterion}
    {count : Nat} :
    (orbit (.expanded ts criterion parts count)).Settled ↔
      ∀ f ∈ parts, f.Settled := by
  rw [Settled, forall_mem_nodes_expanded]
  refine and_iff_right ?_
  rintro o ⟨⟩
  rfl

@[simp] theorem unfailing_bit (mask : UInt32) : (bit mask).Unfailing board := by
  intro leaf hleaf _
  obtain rfl : leaf = bit mask := by simpa using hleaf
  rw [test]
  exact ⟨_, rfl⟩

@[simp] theorem unfailing_all : (all parts).Unfailing board ↔
    ∀ f ∈ parts, f.Unfailing board := by
  rw [Unfailing, forall_mem_nodes_all]
  exact and_iff_right nofun

@[simp] theorem unfailing_any : (any parts).Unfailing board ↔
    ∀ f ∈ parts, f.Unfailing board := by
  rw [Unfailing, forall_mem_nodes_any]
  exact and_iff_right nofun

@[simp] theorem unfailing_expanded {ts : List Transform}
    {criterion : Option Criterion} {count : Nat} :
    (orbit (.expanded ts criterion parts count)).Unfailing board ↔
      ∀ f ∈ parts, f.Unfailing board := by
  rw [Unfailing, forall_mem_nodes_expanded]
  exact and_iff_right nofun

end Parts

/-- A test of a tree without failing leaves and deferred orbits gives a verdict. -/
theorem Settled.exists_answer {board : Board} {f : Filter} (hsettled : f.Settled)
    (hleaves : f.Unfailing board) : ∃ b, (f.test board).answer = .ok b := by
  induction f using tree_induction with
  | bit mask => exact hleaves _ (mem_nodes_self _) rfl
  | scripted label script current => exact hleaves _ (mem_nodes_self _) rfl
  | probe traits cloneAs becomes => exact hleaves _ (mem_nodes_self _) rfl
  | all parts ih =>
      have hparts := fun f hf => Reply.answer_eq_gave <|
        ih f hf (settled_all.mp hsettled f hf) (unfailing_all.mp hleaves f hf)
      rw [test_all]
      exact ⟨_, Reply.all_answers_askUntil hparts⟩
  | any parts ih =>
      have hparts := fun f hf => Reply.answer_eq_gave <|
        ih f hf (settled_any.mp hsettled f hf) (unfailing_any.mp hleaves f hf)
      rw [test_any]
      exact ⟨_, Reply.any_answers_askUntil hparts⟩
  | deferred ts criterion base _ =>
      have hexpanded := hsettled _ (mem_nodes_self _) _ rfl
      simp [Orbit.isExpanded] at hexpanded
  | expanded ts criterion images count ih =>
      have himages := fun f hf =>
        ih f hf (settled_expanded.mp hsettled f hf)
          (unfailing_expanded.mp hleaves f hf)
      exact ⟨_, (Orbit.test_of_answers himages ts criterion count).1⟩

theorem settled_expansion {f : Filter} (h : f.expand.answer = .ok ()) :
    f.expansion.Settled := by
  apply expansion_induction (motive := fun _ g => g.Settled) (h := h)
  case bit => simp [Settled]
  case scripted => simp [Settled]
  case probe => simp [Settled]
  case all =>
    intro parts ih
    exact settled_all.mpr (List.forall_mem_map.mpr ih)
  case any =>
    intro parts ih
    exact settled_any.mpr (List.forall_mem_map.mpr ih)
  case orbit =>
    intro ts criterion base made _ _ ih
    exact settled_expanded.mpr (List.forall_mem_map.mpr ih)

end Filter

end BoardQuery
