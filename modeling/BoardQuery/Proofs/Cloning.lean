/-
Cloning.  A tree whose nodes all agree to be cloned clones as itself, and every
later request finds the clone and its source alike.  Otherwise the first node in
preorder that refuses says why.  The comparison of shapes has nothing to object
to in either case.
-/
import BoardQuery.Proofs.Lifecycle
import BoardQuery.Proofs.Shapes

namespace BoardQuery

theorem Outline.verify_self (t : Outline) : t.verify t = .ok () :=
  (verifyAt_eq_ok_iff t.className t t).mpr fun _ => rfl

/-- A value, unless there is a reason to refuse it. -/
def unlessRefused {α : Type} (value : α) : Option Error → Except Error α
  | none => .ok value
  | some e => .error e

namespace Filter

/-- Why a node refuses to be cloned, whatever stands below it. -/
def cloneRefusal? : Filter → Option Error
  | scripted label _ current =>
      if current = 'C' then
        some (.invalidConfiguration s!"clone {scriptedName label current}")
      else none
  | probe traits _ _ =>
      if .clone ∈ traits.refuses then some
        (.invalidConfiguration s!"clone {traits.label}")
      else none
  | orbit (.expanded _ _ _ _) => some .cloneExpanded
  | _ => none

/-- Whether a node, if it is a probe, has nothing else to clone as. -/
def ClonesAsItself : Filter → Prop
  | probe _ cloneAs _ => cloneAs = none
  | _ => True

/-- Trees that clone as themselves or not at all, cloned in turn up to the first
refusal. -/
theorem answer_inTurn_clone {fs : List Filter}
    (h : ∀ f ∈ fs, f.clone.answer =
      unlessRefused f (f.nodes.findSome? cloneRefusal?)) :
    (Outcome.inTurn clone fs).answer =
      unlessRefused fs ((fs.flatMap nodes).findSome? cloneRefusal?) := by
  induction fs with
  | nil => rfl
  | cons f rest ih =>
      obtain ⟨hf, hrest⟩ := List.forall_mem_cons.mp h
      rw [List.flatMap_cons, List.findSome?_append]
      cases hrefusal : f.nodes.findSome? cloneRefusal? with
      | some e =>
          simp only [hrefusal, unlessRefused] at hf
          simp [Outcome.inTurn, Outcome.cons, hf, unlessRefused]
      | none =>
          simp only [hrefusal, unlessRefused] at hf
          simp only [Outcome.inTurn, Outcome.cons, hf, ih hrest, Option.none_or]
          cases (rest.flatMap nodes).findSome? cloneRefusal? <;> rfl

theorem map_unlessRefused {α β : Type} (g : α → β) (value : α)
    (refusal : Option Error) :
    (unlessRefused value refusal).map g = unlessRefused (g value) refusal := by
  cases refusal <;> rfl

/-- A tree clones as itself, unless one of its nodes refuses: then as the first
one says. -/
theorem answer_clone {f : Filter} (h : ∀ g ∈ f.nodes, g.ClonesAsItself) :
    f.clone.answer = unlessRefused f (f.nodes.findSome? cloneRefusal?) := by
  induction f using tree_induction with
  | bit mask => rfl
  | scripted label script current =>
      by_cases hcurrent : current = 'C' <;>
        simp [clone, scriptedClone, cloneRefusal?, hcurrent, unlessRefused]
  | probe traits cloneAs becomes =>
      have hitself : cloneAs = none := h _ (mem_nodes_self _)
      by_cases hrefuses : .clone ∈ traits.refuses <;>
        simp [clone, probeClone, cloneRefusal?, hrefuses, hitself, unlessRefused]
  | all parts ih =>
      have hnodes := (forall_mem_nodes_all.mp h).2
      have hparts := answer_inTurn_clone fun f hf => ih f hf (hnodes f hf)
      simp only [clone, cloneEach_eq_inTurn, Outcome.map, hparts, map_unlessRefused,
        nodes_all]
      rfl
  | any parts ih =>
      have hnodes := (forall_mem_nodes_any.mp h).2
      have hparts := answer_inTurn_clone fun f hf => ih f hf (hnodes f hf)
      simp only [clone, cloneEach_eq_inTurn, Outcome.map, hparts, map_unlessRefused,
        nodes_any]
      rfl
  | deferred ts criterion base ih =>
      have hnodes := (forall_mem_nodes_deferred.mp h).2
      have hfirst : (orbit (.deferred ts criterion base)).nodes.findSome?
        cloneRefusal? =
          base.nodes.findSome? cloneRefusal? := rfl
      simp only [clone, Orbit.clone, Outcome.map, ih hnodes, hfirst]
      cases base.nodes.findSome? cloneRefusal? with
      | some e => rfl
      | none =>
          simp [unlessRefused, Except.bind, Except.map, Orbit.verified,
          Outline.verify_self]
  | expanded ts criterion images count _ => rfl

theorem cloneRefusal?_ne_shapeMismatch (f : Filter) (path message : String) :
    f.cloneRefusal? ≠ some (.shapeMismatch path message) := by
  cases f with
  | bit mask => simp [cloneRefusal?]
  | scripted label script current => simp [cloneRefusal?]
  | probe traits cloneAs becomes => simp [cloneRefusal?]
  | all parts => simp [cloneRefusal?]
  | any parts => simp [cloneRefusal?]
  | orbit o => cases o <;> simp [cloneRefusal?]

end Filter

/-- What can be asked of the content of a slot that stays where it is. -/
inductive Request where
  | expand
  | test (board : Board)
  | count (board : Board)
  | transform (t : Transform)
  | clone
  | cloneFilter
  | render
  | outline
  | className
deriving DecidableEq, Repr

def Request.command (n : Nat) : Request → Command
  | expand => .expand n
  | test board => .test n board
  | count board => .count n board
  | transform t => .transform n t
  | clone => .clone n
  | cloneFilter => .cloneFilter n
  | render => .render n
  | outline => .outline n
  | className => .className n

namespace Session

/-- Two sessions of equally many slots, with the same content in slot `n` of the
one and in slot `m` of the other. -/
structure Twins (n m : Nat) (s t : Session) : Prop where
  length_eq : s.slots.length = t.slots.length
  slot_eq : ∃ slot, s.slot? n = some slot ∧ t.slot? m = some slot

namespace Twins

variable {n m : Nat} {s t : Session}

theorem settle (h : Twins n m s t) {α : Type} (reply : Reply Slot α)
    (answer : α → Answer) :
    (s.settle n reply answer).2 = (t.settle m reply answer).2 ∧
      Twins n m (s.settle n reply answer).1 (t.settle m reply answer).1 := by
  obtain ⟨hlength, slot, hs, ht⟩ := h
  refine ⟨rfl, ?_, reply.subject, slot?_put hs _, slot?_put ht _⟩
  simpa [Session.settle, put] using hlength

theorem add (h : Twins n m s t) (made : Outcome Slot) :
    (s.add made).2 = (t.add made).2 ∧ Twins n m (s.add made).1 (t.add made).1 := by
  obtain ⟨hlength, slot, hs, ht⟩ := h
  have hslots := And.intro (slot?_add hs made) (slot?_add ht made)
  cases hmade : made.answer with
  | error e =>
      simp only [Session.add, hmade]
      exact ⟨trivial, hlength, slot, hs, ht⟩
  | ok content =>
      simp only [Session.add, hmade] at hslots ⊢
      exact ⟨by rw [hlength], by simpa using hlength, slot, hslots⟩

theorem look (h : Twins n m s t) (view : Slot → Except Error Answer) :
    (s.look n view).2 = (t.look m view).2 ∧
      Twins n m (s.look n view).1 (t.look m view).1 := by
  obtain ⟨slot, hs, ht⟩ := h.slot_eq
  simp only [Session.look, withSlot, hs, ht]
  exact ⟨trivial, h⟩

/-- Twins report the same on a request and stay twins. -/
theorem run (h : Twins n m s t) (request : Request) :
    (s.run (request.command n)).2 = (t.run (request.command m)).2 ∧
      Twins n m (s.run (request.command n)).1 (t.run (request.command m)).1 := by
  obtain ⟨slot, hs, ht⟩ := h.slot_eq
  cases request with
  | expand =>
      simp only [Request.command, Session.run, withSlot, hs, ht]
      cases slot <;> exact h.settle _ _
  | test board =>
      simp only [Request.command, Session.run, withSlot, hs, ht]
      cases slot <;> exact h.settle _ _
  | count board =>
      simp only [Request.command, Session.run, withSlot, hs, ht]
      cases slot with
      | orbit o => exact h.settle _ _
      | filter f => exact ⟨rfl, h⟩
  | transform t =>
      simp only [Request.command, Session.run, withSlot, hs, ht]
      exact h.add _
  | clone =>
      simp only [Request.command, Session.run, withSlot, hs, ht]
      cases slot <;> exact h.add _
  | cloneFilter =>
      simp only [Request.command, Session.run, withSlot, hs, ht]
      exact h.add _
  | render => exact h.look _
  | outline => exact h.look _
  | className => exact h.look _

theorem runAll (h : Twins n m s t) (requests : List Request) :
    s.runAll (requests.map (Request.command n)) =
      t.runAll (requests.map (Request.command m)) := by
  induction requests generalizing s t with
  | nil => rfl
  | cons request rest ih =>
      obtain ⟨hreport, hafter⟩ := h.run request
      simp only [List.map_cons, Session.runAll]
      rw [hreport, ih hafter]

end Twins

/-- A clone that is its source takes a new slot and leaves the source where it
is. -/
theorem run_clone_of_ok {s : Session} {n : Nat} {o : Orbit}
    (h : s.slot? n = some (.orbit o)) (hclone : o.clone.answer = .ok o) :
    let after := (s.run (.clone n)).1
    (s.run (.clone n)).2.answer = .ok (.made s.slots.length) ∧
      after.slot? n = some (.orbit o) ∧ after.slot? s.slots.length =
        some (.orbit o) := by
  have hstays := slot?_add h (o.clone.map .orbit)
  simp only [run, withSlot, h] at hstays ⊢
  refine ⟨?_, hstays, ?_⟩
  · simp [add, Outcome.map, hclone, Except.map]
  · simp [add, Outcome.map, hclone, Except.map, slot?]

end Session

/-- Clones are faithful, and cloning rejects exactly what it must.  If no node
of a deferred orbit refuses, the clone is the orbit again; in a session it takes
a new slot, and whatever is asked of it from then on is answered as it would be
by its source.  Otherwise the answer is the refusal of the first node in
preorder that has one.  No shape is ever found to differ. -/
theorem Orbit.clone_faithful (ts : List Transform) (criterion : Option Criterion)
    (base : Filter) (hprobes : ∀ g ∈ base.nodes, g.ClonesAsItself) :
    let o := deferred ts criterion base
    let nodes := (Filter.orbit o).nodes
    nodes.map Filter.outline = o.outline.descendants ∧
    ((∀ g ∈ nodes, g.cloneRefusal? = none) →
      o.clone.answer = .ok o ∧
      ∀ (s : Session) (n : Nat), s.slot? n = some (.orbit o) →
        let after := (s.run (.clone n)).1
        let m := s.slots.length
        (s.run (.clone n)).2.answer = .ok (.made m) ∧
        after.slot? n = some (.orbit o) ∧ after.slot? m = some (.orbit o) ∧
        ∀ requests : List Request, after.runAll (requests.map (Request.command m)) =
          after.runAll (requests.map (Request.command n))) ∧
    (∀ before g later e, nodes = before ++ g :: later →
      (∀ f ∈ before, f.cloneRefusal? = none) →
      g.cloneRefusal? = some e → o.clone.answer = .error e) ∧
    ∀ path message, o.clone.answer ≠ .error (.shapeMismatch path message) := by
  intro o nodes
  have hnodes : ∀ g ∈ nodes, g.ClonesAsItself :=
    Filter.forall_mem_nodes_deferred.mpr ⟨trivial, hprobes⟩
  have htree : o.clone.answer.map Filter.orbit =
      unlessRefused (Filter.orbit o) (nodes.findSome? Filter.cloneRefusal?) :=
    Filter.answer_clone hnodes
  have hanswer : o.clone.answer =
      unlessRefused o (nodes.findSome? Filter.cloneRefusal?) := by
    rw [← Filter.map_unlessRefused] at htree
    revert htree
    cases o.clone.answer <;> cases nodes.findSome? Filter.cloneRefusal? <;>
      simp [unlessRefused, Except.map]
  refine ⟨(Filter.orbit o).map_outline_nodes, ?_, ?_, ?_⟩
  · intro hnone
    have hok : o.clone.answer = .ok o := by
      rw [hanswer, List.findSome?_eq_none_iff.mpr hnone]
      rfl
    refine ⟨hok, fun s n hslot => ?_⟩
    obtain ⟨hmade, hsource, hcopy⟩ := Session.run_clone_of_ok hslot hok
    exact ⟨hmade, hsource, hcopy,
      Session.Twins.runAll ⟨rfl, .orbit o, hcopy, hsource⟩⟩
  · intro before g later e hsplit hbefore hg
    have hfirst : nodes.findSome? Filter.cloneRefusal? = some e :=
      List.findSome?_eq_some_iff.mpr ⟨before, g, later, hsplit, hg, hbefore⟩
    rw [hanswer, hfirst]
    rfl
  · intro path message hmismatch
    cases hrefusal : nodes.findSome? Filter.cloneRefusal? with
    | none => simp [hanswer, hrefusal, unlessRefused] at hmismatch
    | some e =>
        obtain ⟨g, _, hg⟩ := List.exists_of_findSome?_eq_some hrefusal
        simp only [hanswer, hrefusal, unlessRefused,
          Except.error.injEq] at hmismatch
        exact g.cloneRefusal?_ne_shapeMismatch path message (hmismatch ▸ hg)

/-- An orbit over a probe and an inner orbit clones as itself, and one over an
expanded orbit in front of a leaf that refuses does not. -/
theorem Orbit.clone_faithful_wrapped :
    let inner := Filter.orbit (.deferred [.shift 1] none (.scripted "s" [] '-'))
    let whole := Filter.any [.probe { label := "p" } none (some (.bit 1)), inner]
    let settled := Orbit.expanded [.shift 0] none [.bit 2] 1
    let broken := Filter.all [.bit 1, .orbit settled, .scripted "s" [] 'C']
    (∀ g ∈ whole.nodes, g.ClonesAsItself) ∧ (∀ g ∈ broken.nodes, g.ClonesAsItself) ∧
      (deferred [.shift 2] none whole).clone.answer =
        .ok (deferred [.shift 2] none whole) ∧
      (deferred [.shift 2] none broken).clone.answer = .error .cloneExpanded := by
  intro inner whole settled broken
  have hwhole : ∀ g ∈ whole.nodes, g.ClonesAsItself := by
    simp [whole, inner, Filter.ClonesAsItself]
  have hbroken : ∀ g ∈ broken.nodes, g.ClonesAsItself := by
    simp [broken, settled, Filter.ClonesAsItself]
  obtain ⟨_, hfaithful, _⟩ := clone_faithful [.shift 2] none whole hwhole
  obtain ⟨_, _, hrefused, _⟩ := clone_faithful [.shift 2] none broken hbroken
  refine ⟨hwhole, hbroken, (hfaithful ?_).1, ?_⟩
  · simp [whole, inner, Filter.cloneRefusal?]
  · exact hrefused [.orbit (deferred [.shift 2] none broken), broken, .bit 1]
      (.orbit settled)
      [.bit 2, .scripted "s" [] 'C'] .cloneExpanded rfl
      (by simp [broken, Filter.cloneRefusal?]) rfl

end BoardQuery
