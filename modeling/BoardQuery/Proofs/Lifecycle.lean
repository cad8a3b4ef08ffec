/-
The life of an orbit.  An orbit in a slot of a session stays in its place until a
command moves it.  Up to then it is deferred with the base that it was built on, or
expanded for good, and only an expansion that succeeds leads from one to the other.
-/
import BoardQuery.Proofs.Consultation
import BoardQuery.Proofs.Expansion
import BoardQuery.Session

namespace BoardQuery

theorem Reply.matching_askUntil_le {σ α : Type} (decides : Reply σ Bool → Bool)
    (ask : α → Reply σ Bool) (as : List α) :
    matching (askUntil decides ask as) ≤ as.length :=
  List.countP_le_length.trans (length_askUntil_le decides ask as)

theorem Filter.className_subject_test (board : Board) (f : Filter) :
    (f.test board).subject.className = f.className := by
  cases f <;> simp [Filter.test, Reply.on, className]

namespace Orbit

/-- An orbit as it can be after any calls on one that was built on a base:
deferred with that base, or expanded with as many images as transforms at most.
-/
structure Sound (ts : List Transform) (criterion : Option Criterion) (base : Filter)
    (o : Orbit) :
    Prop where
  transforms_eq : o.transforms = ts
  criterion_eq : o.criterion = criterion
  phase : o.isExpanded = false ∧ o.base? = some base ∧ o.images = [] ∧
    o.lastCount = 0 ∨
    o.isExpanded = true ∧ o.base? = none ∧ 1 ≤ o.images.length ∧
      o.images.length ≤ ts.length
  lastCount_le : o.lastCount ≤ o.images.length
  lastCount_le_one : criterion = none → o.lastCount ≤ 1

section Sound

variable {ts : List Transform} {criterion : Option Criterion} {base : Filter}
  {o : Orbit}

theorem sound_deferred (ts : List Transform) (criterion : Option Criterion)
    (base : Filter) :
    Sound ts criterion base (deferred ts criterion base) :=
  ⟨rfl, rfl, .inl ⟨rfl, rfl, rfl, rfl⟩, Nat.le_refl 0, fun _ => Nat.zero_le 1⟩

/-- A deferred orbit has the base that it was built on. -/
theorem Sound.eq_deferred (h : Sound ts criterion base o)
    (hdeferred : o.isExpanded = false) :
    o = deferred ts criterion base := by
  obtain ⟨rfl, rfl, hphase, _, _⟩ := h
  cases o with
  | expanded ts criterion images count => simp [isExpanded] at hdeferred
  | deferred ts criterion base' =>
      rcases hphase with ⟨_, hbase, _⟩ | ⟨hexpanded, _⟩
      · rw [Option.some.inj hbase]
        rfl
      · simp [isExpanded] at hexpanded

theorem Sound.expand (h : Sound ts criterion base o) :
    Sound ts criterion base o.expand.subject := by
  cases hanswer : o.expand.answer with
  | error e => rwa [subject_expand_of_error hanswer]
  | ok =>
      cases hdeferred : o.isExpanded with
      | true =>
          cases o with
          | deferred ts criterion base => simp [isExpanded] at hdeferred
          | expanded ts criterion images count => simp [expand_expanded] at hanswer
      | false =>
          rw [h.eq_deferred hdeferred] at hanswer ⊢
          obtain ⟨made, hmade, husable, _, hsubject⟩ := expand_deferred_ok hanswer
          rw [hsubject]
          refine ⟨rfl, rfl, .inr ⟨rfl, rfl, ?_, ?_⟩, Nat.zero_le _,
            fun _ => Nat.zero_le 1⟩
          · rw [images, List.length_map]
            exact List.length_pos_iff.mpr husable
          · rw [images, List.length_map, hmade.length_eq]
            exact List.length_filter_le _ made

theorem Sound.test (h : Sound ts criterion base o) (board : Board) :
    Sound ts criterion base (o.test board).subject := by
  obtain ⟨rfl, rfl, hphase, hlast, hone⟩ := h
  cases o with
  | deferred ts criterion base => exact ⟨rfl, rfl, hphase, hlast, hone⟩
  | expanded ts criterion images count =>
      rw [test_expanded]
      refine ⟨rfl, rfl, ?_, ?_, ?_⟩
      · simpa [isExpanded, base?, Orbit.images] using hphase
      · simpa [lastCount, Orbit.images] using Reply.matching_askUntil_le _ _ _
      · intro hnone
        simp only [Orbit.criterion] at hnone
        subst hnone
        exact Reply.matching_askUntil_settlesAny_le _ images

end Sound

/-- An orbit is expanded after an expansion if it was before or the expansion
succeeds. -/
theorem isExpanded_expand (o : Orbit) :
    o.expand.subject.isExpanded = true ↔
      o.isExpanded = true ∨ o.expand.answer = .ok () := by
  cases hanswer : o.expand.answer with
  | error e => simp [subject_expand_of_error hanswer]
  | ok =>
      cases o with
      | expanded ts criterion images count => simp [expand_expanded] at hanswer
      | deferred ts criterion base =>
          obtain ⟨_, _, _, _, hsubject⟩ := expand_deferred_ok hanswer
          simp [hsubject, isExpanded]

theorem isExpanded_test (o : Orbit) (board : Board) :
    (o.test board).subject.isExpanded = o.isExpanded := by
  cases o <;> rfl

theorem map_className_test (o : Orbit) (board : Board) :
    (o.test board).subject.images.map Filter.className =
      o.images.map Filter.className := by
  cases o with
  | deferred ts criterion base => rfl
  | expanded ts criterion images count =>
      rw [test_expanded]
      exact Reply.map_subjects_askUntil fun f _ => f.className_subject_test board

/-- An expanded orbit refuses to be expanded, cloned or transformed. -/
theorem refuses_of_isExpanded {o : Orbit} (h : o.isExpanded = true) :
    o.expand.answer = .error .alreadyExpanded ∧ o.expand.subject = o ∧
      o.clone.answer = .error .cloneExpanded ∧
      ∀ t : Transform, (o.transform t).answer = .error .alreadyExpanded := by
  cases o with
  | deferred ts criterion base => simp [isExpanded] at h
  | expanded ts criterion images count =>
      simp [expand_expanded, clone, transform]

end Orbit

/-- Whether a command leaves the content of a slot where it is. -/
def Command.Leaves (n : Nat) : Command → Prop
  | .wrap m _ _ => m ≠ n
  | .group parts _ => n ∉ parts
  | _ => True

namespace Session

def after (s : Session) (commands : List Command) : Session :=
  commands.foldl (fun s command => (s.run command).1) s

theorem after_append (s : Session) (first later : List Command) :
    s.after (first ++ later) = (s.after first).after later :=
  List.foldl_append

section Slot

variable {s : Session} {m n : Nat} {slot : Slot}

theorem slot?_put_of_ne (hne : m ≠ n) (other : Slot) :
    (s.put m other).slot? n = s.slot? n := by
  simp [slot?, put, List.getElem?_set_ne hne]

theorem lt_length_of_slot? (h : s.slot? n = some slot) : n < s.slots.length := by
  by_contra hge
  simp [slot?, List.getElem?_eq_none (Nat.le_of_not_lt hge)] at h

theorem slot?_put (h : s.slot? n = some slot) (other : Slot) :
    (s.put n other).slot? n = some other := by
  simp [slot?, put, lt_length_of_slot? h]

theorem slot?_clear_of_ne (hne : m ≠ n) : (s.clear m).slot? n = s.slot? n := by
  simp [slot?, clear, List.getElem?_set_ne hne]

theorem slot?_add (h : s.slot? n = some slot) (made : Outcome Slot) :
    (s.add made).1.slot? n = some slot := by
  unfold add
  split
  · exact h
  · simpa [slot?, List.getElem?_append_left (lt_length_of_slot? h)] using h

theorem slot?_takeAll {parts : List Nat} (h : s.slot? n = some slot)
    (hparts : n ∉ parts) :
    (s.takeAll parts).1.slot? n = some slot := by
  induction parts generalizing s with
  | nil => exact h
  | cons m rest ih =>
      simp only [List.mem_cons, not_or] at hparts
      rw [takeAll]
      split
      · exact ih h hparts.2
      · exact ih ((slot?_clear_of_ne (Ne.symm hparts.1)).trans h) hparts.2

/-- An act on the content of one slot leaves that of another if it does so
wherever it takes place. -/
theorem slot?_withSlot {act : Slot → Session × Report} (h : s.slot? n = some slot)
    (hact : ∀ content, (act content).1.slot? n = some slot) :
    (s.withSlot m act).1.slot? n = some slot := by
  unfold withSlot
  split
  · exact h
  · next content _ => exact hact content

theorem slot?_settle_of_ne (hne : m ≠ n) {α : Type} (reply : Reply Slot α)
    (answer : α → Answer) :
    (s.settle m reply answer).1.slot? n = s.slot? n :=
  slot?_put_of_ne hne reply.subject

end Slot

/-- Everything that a command which leaves an orbit in slot `n` can do to it. -/
inductive Effect (n : Nat) (o : Orbit) : Command → Orbit → Prop
  | same {command : Command} (hcommand : command ≠ .expand n) : Effect n o command o
  | expanded : Effect n o (.expand n) o.expand.subject
  | tested {command : Command} (board : Board) (hcommand : command ≠ .expand n) :
      Effect n o command (o.test board).subject

section Run

variable {s : Session} {n : Nat} {o : Orbit}

/-- Every command has one of these effects on an orbit that it leaves where it
is. -/
theorem effect_run (h : s.slot? n = some (.orbit o)) {command : Command}
    (hleaves : command.Leaves n) :
    ∃ o', (s.run command).1.slot? n = some (.orbit o') ∧ Effect n o command o' := by
  cases command with
  | makeOrbit ts source base => exact ⟨o, slot?_add h _, .same nofun⟩
  | makeFilter blueprint => exact ⟨o, slot?_add h _, .same nofun⟩
  | wrap m ts source =>
      exact ⟨o, slot?_withSlot h fun _ =>
        slot?_add ((slot?_clear_of_ne hleaves).trans h) _,
        .same nofun⟩
  | group parts any => exact ⟨o, slot?_add (slot?_takeAll h hleaves) _, .same nofun⟩
  | clone m =>
      refine ⟨o, slot?_withSlot h fun content => ?_, .same nofun⟩
      cases content <;> exact slot?_add h _
  | cloneFilter m => exact ⟨o, slot?_withSlot h fun _ => slot?_add h _, .same nofun⟩
  | transform m t => exact ⟨o, slot?_withSlot h fun _ => slot?_add h _, .same nofun⟩
  | expand m =>
      by_cases hm : m = n
      · subst hm
        simp only [run, withSlot, h]
        exact ⟨_, slot?_put h _, .expanded⟩
      · refine ⟨o, slot?_withSlot h fun content => ?_,
          .same fun heq => hm (by simpa using heq)⟩
        cases content <;> exact (slot?_settle_of_ne hm _ _).trans h
  | test m board =>
      by_cases hm : m = n
      · subst hm
        simp only [run, withSlot, h]
        exact ⟨_, slot?_put h _, .tested board nofun⟩
      · refine ⟨o, slot?_withSlot h fun content => ?_, .same nofun⟩
        cases content <;> exact (slot?_settle_of_ne hm _ _).trans h
  | count m board =>
      by_cases hm : m = n
      · subst hm
        simp only [run, withSlot, h]
        refine ⟨_, slot?_put h _, ?_⟩
        rcases o.subject_count board with hsame | htested
        · rw [hsame]
          exact .same nofun
        · rw [htested]
          exact .tested board nofun
      · refine ⟨o, slot?_withSlot h fun content => ?_, .same nofun⟩
        cases content with
        | orbit _ => exact (slot?_settle_of_ne hm _ _).trans h
        | filter _ => exact h
  | render m => exact ⟨o, slot?_withSlot h fun _ => h, .same nofun⟩
  | outline m => exact ⟨o, slot?_withSlot h fun _ => h, .same nofun⟩
  | className m => exact ⟨o, slot?_withSlot h fun _ => h, .same nofun⟩
  | verify source clone =>
      refine ⟨o, ?_, .same nofun⟩
      simp only [run]
      split <;> exact h

theorem Effect.sound {command : Command} {o' : Orbit} {ts : List Transform}
    {criterion : Option Criterion} {base : Filter} (heffect : Effect n o command o')
    (h : o.Sound ts criterion base) : o'.Sound ts criterion base := by
  cases heffect with
  | same _ => exact h
  | expanded => exact h.expand
  | tested board _ => exact h.test board

/-- An orbit that is expanded stays so, with images of the same kinds. -/
theorem Effect.settled {command : Command} {o' : Orbit}
    (heffect : Effect n o command o') (h : o.isExpanded = true) :
    o'.isExpanded = true ∧ o'.images.map Filter.className =
      o.images.map Filter.className := by
  cases heffect with
  | same _ => exact ⟨h, rfl⟩
  | expanded =>
      rw [(Orbit.refuses_of_isExpanded h).2.1]
      exact ⟨h, rfl⟩
  | tested board _ =>
      exact ⟨(o.isExpanded_test board).trans h, o.map_className_test board⟩

theorem answer_run_expand (h : s.slot? n = some (.orbit o)) :
    (s.run (.expand n)).2.answer =
      (o.expand.answer.map fun () => .done).mapError .failed := by
  simp [run, withSlot, h, settle, Reply.on]

/-- Only an expansion that succeeds makes an orbit expanded. -/
theorem Effect.isExpanded_iff {command : Command} {o' : Orbit}
    (heffect : Effect n o command o') (h : s.slot? n = some (.orbit o)) :
    o'.isExpanded = true ↔
      o.isExpanded = true ∨ command = .expand n ∧
        (s.run command).2.answer = .ok .done := by
  cases heffect with
  | same hcommand => simp [hcommand]
  | expanded =>
      rw [Orbit.isExpanded_expand, answer_run_expand h]
      cases o.expand.answer <;> simp [Except.map, Except.mapError]
  | tested board hcommand => simp [hcommand, Orbit.isExpanded_test]

/-- What every command keeps of an orbit that it leaves where it is, any number of
commands keep. -/
theorem after_induction {motive : Orbit → Prop}
    (step : ∀ command o o', Effect n o command o' → motive o → motive o')
    (h : s.slot? n = some (.orbit o)) (hmotive : motive o) {commands : List Command}
    (hleaves : ∀ command ∈ commands, command.Leaves n) :
    ∃ o', (s.after commands).slot? n = some (.orbit o') ∧ motive o' := by
  induction commands generalizing s o with
  | nil => exact ⟨o, h, hmotive⟩
  | cons command rest ih =>
      obtain ⟨o', hslot, heffect⟩ :=
        effect_run h (hleaves command List.mem_cons_self)
      exact ih hslot (step command o o' heffect hmotive)
        fun later hlater => hleaves later (List.mem_cons_of_mem command hlater)

/-- An expanded orbit refuses to be expanded, cloned and transformed in its slot. -/
theorem run_refuses (h : s.slot? n = some (.orbit o))
    (hexpanded : o.isExpanded = true) :
    (s.run (.expand n)).2.answer = .error (.failed .alreadyExpanded) ∧
      (s.run (.clone n)).2.answer = .error (.failed .cloneExpanded) ∧
      ∀ t : Transform, (s.run (.transform n t)).2.answer =
        .error (.failed .alreadyExpanded) := by
  obtain ⟨hexpand, _, hclone, htransform⟩ := Orbit.refuses_of_isExpanded hexpanded
  refine ⟨?_, ?_, ?_⟩
  · rw [answer_run_expand h, hexpand]
    rfl
  · simp [run, withSlot, h, add, Outcome.map, hclone, Except.map]
  · intro t
    simp [run, withSlot, h, add, Outcome.map, Slot.toFilter, Filter.transform,
      htransform, Except.map]

end Run

/-- The life of an orbit in a slot of a session.  Whatever commands the session
carries out without moving it elsewhere, the orbit is sound after them; the next
command expands it only if it succeeds in doing so; and once expanded it stays
as it is. -/
theorem orbit_lifecycle {s : Session} {n : Nat} {ts : List Transform}
    {criterion : Option Criterion} {base : Filter}
    (hslot : s.slot? n = some (.orbit (.deferred ts criterion base)))
    {commands : List Command} (hleaves : ∀ command ∈ commands, command.Leaves n) :
    ∃ o, (s.after commands).slot? n = some (.orbit o) ∧ o.Sound ts criterion base ∧
      (∀ next : Command, next.Leaves n →
        ∃ o', ((s.after commands).run next).1.slot? n = some (.orbit o') ∧
          (o'.isExpanded = true ↔ o.isExpanded = true ∨
            next = .expand n ∧ ((s.after commands).run next).2.answer =
              .ok .done)) ∧
      (o.isExpanded = true → ∀ later : List Command,
        (∀ command ∈ later, command.Leaves n) →
        let t := (s.after commands).after later
        ∃ o', t.slot? n = some (.orbit o') ∧ o'.isExpanded = true ∧
          o'.images.map Filter.className = o.images.map Filter.className ∧
          (t.run (.expand n)).2.answer = .error (.failed .alreadyExpanded) ∧
          (t.run (.clone n)).2.answer = .error (.failed .cloneExpanded) ∧
          ∀ tr : Transform,
            (t.run (.transform n tr)).2.answer =
              .error (.failed .alreadyExpanded)) := by
  obtain ⟨o, ho, hsound⟩ :=
    after_induction (motive := Orbit.Sound ts criterion base)
    (fun _ _ _ heffect h => heffect.sound h) hslot
      (Orbit.sound_deferred ts criterion base) hleaves
  refine ⟨o, ho, hsound, ?_, ?_⟩
  · intro next hnext
    obtain ⟨o', ho', heffect⟩ := effect_run ho hnext
    exact ⟨o', ho', heffect.isExpanded_iff ho⟩
  · intro hexpanded later hlater t
    obtain ⟨o', ho', hexpanded', hnames⟩ := after_induction
      (motive := fun o' : Orbit => o'.isExpanded = true ∧
        o'.images.map Filter.className = o.images.map Filter.className)
      (fun _ _ _ heffect h =>
        ⟨(heffect.settled h.1).1, (heffect.settled h.1).2.trans h.2⟩)
      ho ⟨hexpanded, rfl⟩ hlater
    exact ⟨o', ho', hexpanded', hnames, run_refuses ho' hexpanded'⟩

/-- An orbit that is tested before its time, cloned, expanded, tested and
refused, while its clone is moved. -/
theorem orbit_lifecycle_pruned :
    let ts : List Transform := [.shift 0, .shift 32, .shift 1]
    let s : Session := ⟨[some (.orbit (.deferred ts none (.bit 1)))]⟩
    let commands : List Command :=
      [.test 0 2, .clone 0, .wrap 1 [] .absent, .expand 0, .test 0 2, .expand 0]
    s.slot? 0 = some (.orbit (.deferred ts none (.bit 1))) ∧
    (∀ command ∈ commands, command.Leaves 0) ∧
    ∃ o, (s.after commands).slot? 0 = some (.orbit o) ∧ o.Sound ts none (.bit 1) ∧
      o = .expanded ts none [.bit 1, .bit 2] 1 ∧
      (((s.after commands).after [.test 0 4]).run (.clone 0)).2.answer =
        .error (.failed .cloneExpanded) := by
  intro ts s commands
  have hslot : s.slot? 0 = some (.orbit (.deferred ts none (.bit 1))) := rfl
  have hleaves : ∀ command ∈ commands, command.Leaves 0 := by
    simp [commands, Command.Leaves]
  let start := Orbit.deferred ts none (.bit 1)
  have hmoved : s.after (commands.take 3) = ⟨[some (.orbit start), none,
      some (.orbit (.deferred [] none (.orbit start)))]⟩ := rfl
  have hruns : (s.after commands).slot? 0 =
      some (.orbit (start.expand.subject.test 2).subject.expand.subject) := by
    rw [← commands.take_append_drop 3, after_append, hmoved]
    rfl
  have hexpand : start.expand.subject = .expanded ts none [.bit 1, .bit 2] 0 := by
    cbv
  have htest : ((Orbit.expanded ts none [.bit 1, .bit 2] 0).test 2).subject =
      .expanded ts none [.bit 1, .bit 2] 1 := rfl
  have hafter : (s.after commands).slot? 0 =
      some (.orbit (.expanded ts none [.bit 1, .bit 2] 1)) := by
    rw [hruns, hexpand, htest, Orbit.expand_expanded]
  obtain ⟨o, ho, hsound, _, hlater⟩ := orbit_lifecycle hslot hleaves
  obtain rfl : o = .expanded ts none [.bit 1, .bit 2] 1 := by
    simpa [hafter] using ho.symm
  obtain ⟨_, _, _, _, _, hclone, _⟩ :=
    hlater rfl [.test 0 4] (by simp [Command.Leaves])
  exact ⟨hslot, hleaves, _, ho, hsound, rfl, hclone⟩

end Session

end BoardQuery
