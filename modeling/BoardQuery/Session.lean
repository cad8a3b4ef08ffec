/-
Sessions.  A session is a row of numbered slots, each of which holds an orbit
or a filter until its content is moved elsewhere.  Commands make new slots, act
on the content of a slot, or look at it.
-/
import BoardQuery.Filter.Clone
import BoardQuery.Filter.Expand
import BoardQuery.Filter.Print
import BoardQuery.Filter.Test

namespace BoardQuery

inductive Slot where
  | orbit (o : Orbit)
  | filter (f : Filter)

/-- The content of a slot as a filter. -/
def Slot.toFilter : Slot → Filter
  | orbit o => .orbit o
  | filter f => f

/-- The content of a slot if it is known to be an orbit. -/
def Slot.orbit? : Slot → Option Orbit
  | orbit o => some o
  | filter _ => none

/-- What a session can be told to do.  To wrap and to group move the contents of
slots into what they make. -/
inductive Command where
  | makeOrbit (transforms : List Transform) (source : CriterionSource)
      (base : Blueprint)
  | makeFilter (blueprint : Blueprint)
  | wrap (n : Nat) (transforms : List Transform) (source : CriterionSource)
  | group (parts : List Nat) (any : Bool)
  | clone (n : Nat)
  | cloneFilter (n : Nat)
  | transform (n : Nat) (t : Transform)
  | expand (n : Nat)
  | test (n : Nat) (board : Board)
  | count (n : Nat) (board : Board)
  | render (n : Nat)
  | outline (n : Nat)
  | className (n : Nat)
  | verify (source clone : Nat)

inductive Answer where
  | made (slot : Nat)
  | done
  | verdict (b : Bool)
  | count (n : Option Nat)
  | text (text : String)
  | outline (t : Outline)

/-- Why a command has no answer. -/
inductive Complaint where
  | failed (e : Error)
  | noSlot
  | notAnOrbit
deriving DecidableEq, Repr

/-- The report on a command: its answer, the orbit it was about, and its journal. -/
structure Report where
  answer : Except Complaint Answer
  about : Option Orbit := none
  journal : Journal := []

/-- The slots of a session; a slot whose content has moved is empty. -/
structure Session where
  slots : List (Option Slot) := []

namespace Session

def slot? (s : Session) (n : Nat) : Option Slot :=
  s.slots[n]?.join

def put (s : Session) (n : Nat) (slot : Slot) : Session :=
  ⟨s.slots.set n (some slot)⟩

def clear (s : Session) (n : Nat) : Session :=
  ⟨s.slots.set n none⟩

/-- Adds a slot for what a command made. -/
def add (s : Session) (made : Outcome Slot) : Session × Report :=
  match made.answer with
  | .error e => (s, { answer := .error (.failed e), journal := made.journal })
  | .ok slot =>
      (⟨s.slots ++ [some slot]⟩,
        { answer := .ok (.made s.slots.length), about := slot.orbit?,
            journal := made.journal })

/-- Does something with the content of a slot. -/
def withSlot (s : Session) (n : Nat) (act : Slot → Session × Report) :
    Session × Report :=
  match s.slot? n with
  | none => (s, { answer := .error .noSlot })
  | some slot => act slot

/-- Looks at the content of a slot. -/
def look (s : Session) (n : Nat) (view : Slot → Except Error Answer) :
    Session × Report :=
  s.withSlot n fun slot =>
    (s, { answer := (view slot).mapError .failed, about := slot.orbit? })

/-- Puts the subject of a reply back into its slot. -/
def settle {α : Type} (s : Session) (n : Nat) (reply : Reply Slot α)
    (answer : α → Answer) :
    Session × Report :=
  (s.put n reply.subject,
    { answer := (reply.answer.map answer).mapError .failed
      about := reply.subject.orbit?
      journal := reply.journal })

/-- Moves the contents of slots out, empty ones aside. -/
def takeAll (s : Session) : List Nat → Session × List Filter
  | [] => (s, [])
  | n :: rest =>
      match s.slot? n with
      | none => s.takeAll rest
      | some slot =>
          let (after, taken) := (s.clear n).takeAll rest
          (after, slot.toFilter :: taken)

def run (s : Session) : Command → Session × Report
  | .makeOrbit ts source base =>
      s.add { answer := (base.build.bind (Orbit.ofSource ts source)).map .orbit }
  | .makeFilter blueprint => s.add { answer := blueprint.build.map .filter }
  | .wrap n ts source =>
      s.withSlot n fun slot =>
        (s.clear n).add
          { answer := (Orbit.ofSource ts source slot.toFilter).map .orbit }
  | .group parts any =>
      let (after, taken) := s.takeAll parts
      after.add { answer := .ok (.filter (if any then .any taken else .all taken)) }
  | .clone n =>
      s.withSlot n fun
        | .orbit o => s.add (o.clone.map .orbit)
        | .filter f => s.add (f.clone.map .filter)
  | .cloneFilter n => s.withSlot n fun slot =>
      s.add (slot.toFilter.clone.map .filter)
  | .transform n t => s.withSlot n fun slot =>
      s.add ((slot.toFilter.transform t).map .filter)
  | .expand n =>
      s.withSlot n fun
        | .orbit o => s.settle n (o.expand.on .orbit) fun () => .done
        | .filter f => s.settle n (f.expand.on .filter) fun () => .done
  | .test n board =>
      s.withSlot n fun
        | .orbit o => s.settle n ((o.test board).on .orbit) .verdict
        | .filter f => s.settle n ((f.test board).on .filter) .verdict
  | .count n board =>
      s.withSlot n fun
        | .orbit o => s.settle n ((o.count board).on .orbit) .count
        | .filter _ => (s, { answer := .error .notAnOrbit })
  | .render n => s.look n fun slot => slot.toFilter.render.map .text
  | .outline n => s.look n fun slot => .ok (.outline slot.toFilter.outline)
  | .className n => s.look n fun slot => .ok (.text slot.toFilter.className)
  | .verify source clone =>
      match s.slot? source, s.slot? clone with
      | some a, some b =>
          let answer := a.toFilter.outline.verify b.toFilter.outline
          (s, { answer := (answer.map fun () => .done).mapError .failed })
      | _, _ => (s, { answer := .error .noSlot })

def runAll (s : Session) : List Command → List Report
  | [] => []
  | command :: rest =>
      let (after, report) := s.run command
      report :: after.runAll rest

end Session

end BoardQuery
