/-
Testing a board.  Parts and images are asked in turn, and only for as long as
the result is open: `all` asks up to the first one that does not match, `any`
and an orbit without a criterion up to the first one that does, an orbit with a
criterion asks every image.  A failure ends each of them.  An orbit keeps the
number of images that matched, also of a test that failed midway.
-/
import BoardQuery.Filter.Basic
import BoardQuery.Reply

namespace BoardQuery

def Filter.scriptedVerdict (label : String) (current : Char) : Except Error Bool :=
  if current = 'E' then
    .error (.notExpanded s!"match {Filter.scriptedName label current}")
  else .ok (current ∈ ['M', 'D', 'X', 'C', 'P'])

def Filter.probeVerdict (traits : Traits) (board : Board) : Except Error Bool :=
  if .test ∈ traits.refuses then
    .error (.invalidConfiguration s!"match {traits.label}")
  else .ok (board &&& traits.mask != 0)

def Reply.settlesAll {σ : Type} (r : Reply σ Bool) : Bool :=
  r.failed || r.gave false

def Reply.settlesAny {σ : Type} (r : Reply σ Bool) : Bool :=
  r.failed || r.gave true

/-- Whether a reply settles an orbit.  With a criterion only a failure does. -/
def Reply.settlesOrbit {σ : Type} (criterion : Option Criterion)
    (r : Reply σ Bool) : Bool :=
  match criterion with
  | none => r.settlesAny
  | some _ => r.failed

def Reply.matching {σ : Type} (replies : List (Reply σ Bool)) : Nat :=
  replies.countP (Reply.gave true)

/-- The journal of an orbit's replies, with a remark on each that matched. -/
def Orbit.testJournal {σ : Type} (replies : List (Reply σ Bool)) : Journal :=
  replies.zipIdx.flatMap fun (r, i) =>
    r.journal ++ if r.gave true then [.matched i] else []

/-- The verdict of an orbit on the answers of its images: without a criterion one
match is enough, with one the number of matches has to meet it. -/
def Orbit.verdict (criterion : Option Criterion) (answers : List Bool) : Bool :=
  match criterion with
  | none => answers.any id
  | some criterion => criterion.accepts (answers.count true)

mutual

def Filter.test (board : Board) : Filter → Reply Filter Bool
  | .bit mask => { subject := .bit mask, answer := .ok (board &&& mask != 0) }
  | .scripted label script current =>
      { subject := .scripted label script current
        answer := Filter.scriptedVerdict label current
        journal := [.called .test (Filter.scriptedName label current)] }
  | .probe traits cloneAs becomes =>
      { subject := .probe traits cloneAs becomes
        answer := Filter.probeVerdict traits board
        journal := [.called .test traits.label] }
  | .all parts =>
      let asked := Filter.testUntil board Reply.settlesAll parts
      { subject := .all (Reply.subjects parts asked)
        answer := (Reply.answers asked).map fun verdicts => verdicts.all id
        journal := Reply.journals asked }
  | .any parts =>
      let asked := Filter.testUntil board Reply.settlesAny parts
      { subject := .any (Reply.subjects parts asked)
        answer := (Reply.answers asked).map fun verdicts => verdicts.any id
        journal := Reply.journals asked }
  | .orbit o => (o.test board).on .orbit

def Orbit.test (board : Board) : Orbit → Reply Orbit Bool
  | .deferred ts criterion base =>
      { subject := .deferred ts criterion base
        answer := .error (.notExpanded "match_position") }
  | .expanded ts criterion images _ =>
      let asked := Filter.testUntil board (Reply.settlesOrbit criterion) images
      { subject := .expanded ts criterion (Reply.subjects images asked)
          (Reply.matching asked)
        answer := (Reply.answers asked).map (Orbit.verdict criterion)
        journal := Orbit.testJournal asked }

/-- Asks filters in turn, up to and including the first reply that decides. -/
def Filter.testUntil (board : Board) (decides : Reply Filter Bool → Bool) :
    List Filter → List (Reply Filter Bool)
  | [] => []
  | f :: rest =>
      let r := f.test board
      if decides r then [r] else r :: Filter.testUntil board decides rest

end

@[simp] theorem Filter.testUntil_eq_askUntil (board : Board)
    (decides : Reply Filter Bool → Bool) (fs : List Filter) :
    Filter.testUntil board decides fs =
      Reply.askUntil decides (Filter.test board) fs := by
  induction fs with
  | nil => rfl
  | cons f rest ih => simp [Filter.testUntil, Reply.askUntil, ih]

/-- Counts the images of an orbit that match, if their number meets the criterion.
Only an orbit with a criterion can be counted. -/
def Orbit.count (board : Board) (o : Orbit) : Reply Orbit (Option Nat) :=
  match o.criterion with
  | none => { subject := o, answer := .error .criterionRequired }
  | some _ =>
      let r := o.test board
      { subject := r.subject
        answer := r.answer.map fun verdict =>
          if verdict then some r.subject.lastCount else none
        journal := r.journal }

end BoardQuery
