/-
Asking again and again.  An orbit may be tested and counted any number of times.
All that this changes are the counts that orbits keep of their last test, and no
answer and no journal depends on them, nor does anything else that a tree shows.
-/
import BoardQuery.Filter.Print
import BoardQuery.Proofs.Asking
import BoardQuery.Proofs.Tree
import Mathlib.Data.List.Permutation

namespace BoardQuery

mutual

/-- The filter with the counts of all last tests cleared. -/
def Filter.forget : Filter → Filter
  | .all parts => .all (Filter.forgetEach parts)
  | .any parts => .any (Filter.forgetEach parts)
  | .orbit o => .orbit o.forget
  | leaf => leaf

def Orbit.forget : Orbit → Orbit
  | .deferred ts criterion base => .deferred ts criterion base.forget
  | .expanded ts criterion images _ =>
      .expanded ts criterion (Filter.forgetEach images) 0

def Filter.forgetEach : List Filter → List Filter
  | [] => []
  | f :: rest => f.forget :: Filter.forgetEach rest

end

@[simp] theorem Filter.forgetEach_eq_map (fs : List Filter) :
    Filter.forgetEach fs = fs.map Filter.forget := by
  induction fs with
  | nil => rfl
  | cons f rest ih => simp [Filter.forgetEach, ih]

/-- A call that asks an orbit about a board. -/
inductive Consultation where
  | test (board : Board)
  | count (board : Board)
deriving DecidableEq, Repr

def Consultation.board : Consultation → Board
  | test board => board
  | count board => board

def Orbit.consult (o : Orbit) : Consultation → Orbit
  | .test board => (o.test board).subject
  | .count board => (o.count board).subject

def Orbit.consultAll (o : Orbit) (calls : List Consultation) : Orbit :=
  calls.foldl Orbit.consult o

/-- A count leaves the orbit as it was or as a test leaves it. -/
theorem Orbit.subject_count (o : Orbit) (board : Board) :
    (o.count board).subject = o ∨ (o.count board).subject =
      (o.test board).subject := by
  unfold Orbit.count
  split
  · exact Or.inl rfl
  · exact Or.inr rfl

/-- What every test keeps, any number of tests and counts keep. -/
theorem Orbit.consultAll_induction {motive : Orbit → Prop}
    (htest : ∀ o board, motive o → motive (o.test board).subject) {o : Orbit}
    (h : motive o) (calls : List Consultation) : motive (o.consultAll calls) := by
  induction calls generalizing o with
  | nil => exact h
  | cons call rest ih =>
      have hcall : motive (o.consult call) := by
        cases call with
        | test board => exact htest o board h
        | count board =>
            rcases o.subject_count board with hsame | htested
            · simpa only [Orbit.consult, hsame] using h
            · simpa only [Orbit.consult, htested] using htest o board h
      exact ih hcall

theorem Filter.test_all (board : Board) (parts : List Filter) :
    (Filter.all parts).test board =
      let asked := Reply.askUntil Reply.settlesAll (Filter.test board) parts
      { subject := .all (Reply.subjects parts asked)
        answer := (Reply.answers asked).map fun verdicts => verdicts.all id
        journal := Reply.journals asked } := by
  simp [Filter.test]

theorem Filter.test_any (board : Board) (parts : List Filter) :
    (Filter.any parts).test board =
      let asked := Reply.askUntil Reply.settlesAny (Filter.test board) parts
      { subject := .any (Reply.subjects parts asked)
        answer := (Reply.answers asked).map fun verdicts => verdicts.any id
        journal := Reply.journals asked } := by
  simp [Filter.test]

theorem Orbit.test_expanded (board : Board) (ts : List Transform)
    (criterion : Option Criterion) (images : List Filter) (count : Nat) :
    (Orbit.expanded ts criterion images count).test board =
      let asked :=
        Reply.askUntil (Reply.settlesOrbit criterion) (Filter.test board) images
      { subject := .expanded ts criterion (Reply.subjects images asked)
          (Reply.matching asked)
        answer := (Reply.answers asked).map (Orbit.verdict criterion)
        journal := Orbit.testJournal asked } := by
  simp [Orbit.test]

/-- Whether a rule of decision looks at outcomes only. -/
def Reply.Impartial (decides : Reply Filter Bool → Bool) : Prop :=
  ∀ r r' : Reply Filter Bool, r.toOutcome = r'.toOutcome → decides r = decides r'

/-- What heeds nothing but answers does not look at subjects. -/
theorem Reply.HeedsAnswers.impartial {decides : Reply Filter Bool → Bool}
    (h : HeedsAnswers decides) : Impartial decides :=
  fun r r' heq => h r r' (congrArg Outcome.answer heq)

/-- Where clearing the counts of single filters changes no outcome, it changes none
of a row either. -/
theorem Filter.alike_forget {board : Board} {decides : Reply Filter Bool → Bool}
    (hdecides : Reply.Impartial decides) {fs : List Filter}
    (h : ∀ f ∈ fs, (f.forget.test board).toOutcome = (f.test board).toOutcome) :
    Reply.Alike (Reply.askUntil decides (Filter.test board) (fs.map Filter.forget))
      (Reply.askUntil decides (Filter.test board) fs) := by
  rw [Reply.askUntil_map]
  exact Reply.alike_askUntil h fun f hf => hdecides _ _ (h f hf)

/-- The counts of earlier tests have no part in the outcome of a test. -/
theorem Filter.test_forget (board : Board) (f : Filter) :
    (f.forget.test board).toOutcome = (f.test board).toOutcome := by
  induction f using Filter.tree_induction with
  | bit mask => rfl
  | scripted label script current => rfl
  | probe traits cloneAs becomes => rfl
  | all parts ih =>
      have halike := Filter.alike_forget Reply.heedsAnswers_settlesAll.impartial ih
      simp only [Filter.forget, Filter.forgetEach_eq_map, Filter.test_all]
      rw [halike.answers_eq, halike.journals_eq]
  | any parts ih =>
      have halike := Filter.alike_forget Reply.heedsAnswers_settlesAny.impartial ih
      simp only [Filter.forget, Filter.forgetEach_eq_map, Filter.test_any]
      rw [halike.answers_eq, halike.journals_eq]
  | deferred ts criterion base _ => rfl
  | expanded ts criterion images count ih =>
      have halike :=
        Filter.alike_forget (Reply.heedsAnswers_settlesOrbit criterion).impartial ih
      simp only [Filter.forget, Orbit.forget, Filter.forgetEach_eq_map, Filter.test,
        Reply.on, Orbit.test_expanded]
      rw [halike.answers_eq, halike.testJournal_eq]

theorem Filter.answer_test_of_forget_eq {f g : Filter} (h : f.forget = g.forget)
    (board : Board) :
    (f.test board).answer = (g.test board).answer := by
  rw [← congrArg Outcome.answer (test_forget board f), h,
    congrArg Outcome.answer (test_forget board g)]

/-- A test changes nothing but the counts of last tests. -/
theorem Filter.forget_subject_test (board : Board) (f : Filter) :
    (f.test board).subject.forget = f.forget := by
  induction f using Filter.tree_induction with
  | bit mask => rfl
  | scripted label script current => rfl
  | probe traits cloneAs becomes => rfl
  | all parts ih =>
      simp only [Filter.test_all, Filter.forget, Filter.forgetEach_eq_map]
      rw [Reply.map_subjects_askUntil ih]
  | any parts ih =>
      simp only [Filter.test_any, Filter.forget, Filter.forgetEach_eq_map]
      rw [Reply.map_subjects_askUntil ih]
  | deferred ts criterion base _ => rfl
  | expanded ts criterion images count ih =>
      simp only [Filter.test, Reply.on, Orbit.test_expanded, Filter.forget,
        Orbit.forget, Filter.forgetEach_eq_map]
      rw [Reply.map_subjects_askUntil ih]

namespace Orbit

theorem test_forget (o : Orbit) (board : Board) :
    (o.forget.test board).toOutcome = (o.test board).toOutcome :=
  Filter.test_forget board (.orbit o)

theorem forget_subject_test (o : Orbit) (board : Board) :
    (o.test board).subject.forget = o.forget :=
  Filter.orbit.inj (Filter.forget_subject_test board (.orbit o))

theorem criterion_forget (o : Orbit) : o.forget.criterion = o.criterion := by
  cases o <;> rfl

theorem transforms_forget (o : Orbit) : o.forget.transforms = o.transforms := by
  cases o <;> rfl

theorem isExpanded_forget (o : Orbit) : o.forget.isExpanded = o.isExpanded := by
  cases o <;> rfl

/-- What a test of an expanded orbit counts does not depend on earlier counts. -/
theorem lastCount_subject_test_forget (o : Orbit) (board : Board) :
    (o.forget.test board).subject.lastCount = (o.test board).subject.lastCount := by
  cases o with
  | deferred ts criterion base => rfl
  | expanded ts criterion images count =>
      have halike :=
        Filter.alike_forget (Reply.heedsAnswers_settlesOrbit criterion).impartial
        fun f (_ : f ∈ images) => Filter.test_forget board f
      simp only [forget, Filter.forgetEach_eq_map, test_expanded, lastCount]
      exact halike.matching_eq

/-- The counts of earlier tests have no part in the outcome of a count. -/
theorem count_forget (o : Orbit) (board : Board) :
    (o.forget.count board).toOutcome = (o.count board).toOutcome := by
  have htest := o.test_forget board
  simp only [count, criterion_forget]
  cases o.criterion with
  | none => rfl
  | some _ =>
      simp only [o.lastCount_subject_test_forget board]
      rw [congrArg Outcome.answer htest, congrArg Outcome.journal htest]

/-- Any number of tests and counts change nothing but the counts of last tests. -/
theorem forget_consultAll (o : Orbit) (calls : List Consultation) :
    (o.consultAll calls).forget = o.forget := by
  apply consultAll_induction (motive := fun o' => o'.forget = o.forget) _ rfl
  intro o' board h
  rw [forget_subject_test, h]

/-- A test after any number of tests and counts has the outcome that it has
without them. -/
theorem test_consultAll (o : Orbit) (calls : List Consultation) (board : Board) :
    ((o.consultAll calls).test board).toOutcome = (o.test board).toOutcome := by
  rw [← test_forget, forget_consultAll, test_forget]

/-- A count after any number of tests and counts has the outcome that it has
without them. -/
theorem count_consultAll (o : Orbit) (calls : List Consultation) (board : Board) :
    ((o.consultAll calls).count board).toOutcome = (o.count board).toOutcome := by
  rw [← count_forget, forget_consultAll, count_forget]

/-- What a test counts after any number of tests and counts is what it counts
without them. -/
theorem lastCount_subject_test_consultAll (o : Orbit) (calls : List Consultation)
    (board : Board) :
    ((o.consultAll calls).test board).subject.lastCount =
      (o.test board).subject.lastCount := by
  rw [← lastCount_subject_test_forget, forget_consultAll,
    lastCount_subject_test_forget]

/-- A count is kept as a test keeps it if there is a criterion; else it leaves
the last one. -/
theorem lastCount_subject_count (o : Orbit) (board : Board) :
    (o.count board).subject.lastCount =
      match o.criterion with
      | none => o.lastCount
      | some _ => (o.test board).subject.lastCount := by
  unfold count
  cases o.criterion <;> rfl

theorem heading_congr {o o' : Orbit} (htransforms : o.transforms = o'.transforms)
    (hcriterion : o.criterion = o'.criterion)
    (himages : o.images.length = o'.images.length) :
    o.heading = o'.heading := by
  unfold heading
  rw [htransforms, hcriterion, himages]

end Orbit

namespace Filter

/-- A view that does not show the counts of single filters does not show those
of a row. -/
theorem map_view_forget {α : Type} {view : Filter → α} {fs : List Filter}
    (h : ∀ f ∈ fs, view f.forget = view f) :
    (fs.map forget).map view = fs.map view := by
  rw [List.map_map]
  exact List.map_congr_left h

/-- The counts of earlier tests do not show in the outline. -/
theorem outline_forget (f : Filter) : f.forget.outline = f.outline := by
  induction f using tree_induction with
  | bit mask => rfl
  | scripted label script current => rfl
  | probe traits cloneAs becomes => rfl
  | all parts ih =>
      simp only [forget, forgetEach_eq_map, outline, outlineEach_eq_map,
        map_view_forget ih, className]
  | any parts ih =>
      simp only [forget, forgetEach_eq_map, outline, outlineEach_eq_map,
        map_view_forget ih, className]
  | deferred ts criterion base ih => simp only [forget, Orbit.forget, outline, ih]
  | expanded ts criterion images count ih =>
      simp only [forget, Orbit.forget, forgetEach_eq_map, outline,
        outlineEach_eq_map, map_view_forget ih]

theorem print_forget (f : Filter) : f.forget.print = f.print := by
  induction f using tree_induction with
  | bit mask => rfl
  | scripted label script current => rfl
  | probe traits cloneAs becomes => rfl
  | all parts ih =>
      simp only [forget, forgetEach_eq_map, print, printEach_eq_map,
        map_view_forget ih]
  | any parts ih =>
      simp only [forget, forgetEach_eq_map, print, printEach_eq_map,
        map_view_forget ih]
  | deferred ts criterion base ih =>
      have hheading : (Orbit.deferred ts criterion base.forget).heading =
          (Orbit.deferred ts criterion base).heading :=
            Orbit.heading_congr rfl rfl rfl
      rw [forget, Orbit.forget, print, print, Orbit.print, Orbit.print, hheading,
        ih]
  | expanded ts criterion images count ih =>
      have hheading : (Orbit.expanded ts criterion (images.map forget) 0).heading =
          (Orbit.expanded ts criterion images count).heading :=
        Orbit.heading_congr rfl rfl (List.length_map forget)
      rw [forget, Orbit.forget, print, print, Orbit.print, Orbit.print,
        forgetEach_eq_map, hheading, printEach_eq_map, printEach_eq_map,
        map_view_forget ih]

end Filter

namespace Orbit

section Views

variable {o o' : Orbit} (h : o'.forget = o.forget)
include h

/-- Orbits that differ in counts only have the same transforms, criterion and
state. -/
theorem fields_of_forget_eq : o'.transforms = o.transforms ∧
    o'.criterion = o.criterion ∧
    o'.isExpanded = o.isExpanded := by
  refine ⟨?_, ?_, ?_⟩
  · rw [← transforms_forget, h, transforms_forget]
  · rw [← criterion_forget, h, criterion_forget]
  · rw [← isExpanded_forget, h, isExpanded_forget]

theorem outline_of_forget_eq : o'.outline = o.outline := by
  have htree : (Filter.orbit o').forget = (Filter.orbit o).forget :=
    congrArg Filter.orbit h
  rw [outline, ← Filter.outline_forget, htree, Filter.outline_forget, outline]

theorem render_of_forget_eq :
    (Filter.orbit o').render = (Filter.orbit o).render := by
  have htree : (Filter.orbit o').forget = (Filter.orbit o).forget :=
    congrArg Filter.orbit h
  rw [Filter.render, ← Filter.print_forget, htree, Filter.print_forget,
    Filter.render]

end Views

/-- However often an orbit was tested and counted, each further test and count
answers, calls and remarks what it would have without that, and counts the same
images.  The tree itself stays as it was but for the counts of last tests, which
do not show in its outline or text. -/
theorem consultations_leave_no_trace (o : Orbit) (calls : List Consultation) :
    let later := o.consultAll calls
    (∀ board,
      (later.test board).toOutcome = (o.test board).toOutcome ∧
      (later.test board).subject.lastCount = (o.test board).subject.lastCount ∧
      (later.count board).toOutcome = (o.count board).toOutcome ∧
      (later.count board).subject.lastCount =
        match o.criterion with
        | none => later.lastCount
        | some _ => (o.count board).subject.lastCount) ∧
    later.forget = o.forget ∧
    (later.transforms = o.transforms ∧ later.criterion = o.criterion ∧
      later.isExpanded = o.isExpanded) ∧
    later.outline = o.outline ∧
    (Filter.orbit later).render = (Filter.orbit o).render := by
  intro later
  have hforget : later.forget = o.forget := o.forget_consultAll calls
  have hfields := fields_of_forget_eq hforget
  refine ⟨?_, hforget, hfields, outline_of_forget_eq hforget,
    render_of_forget_eq hforget⟩
  intro board
  have hlast : (later.test board).subject.lastCount =
      (o.test board).subject.lastCount :=
    o.lastCount_subject_test_consultAll calls board
  refine ⟨o.test_consultAll calls board, hlast, o.count_consultAll calls board, ?_⟩
  rw [lastCount_subject_count, lastCount_subject_count, hfields.2.1, hlast]
  cases o.criterion <;> rfl

end Orbit

end BoardQuery
