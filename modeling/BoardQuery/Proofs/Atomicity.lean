/-
Expansion as a transaction.  An expansion draws all images, leaves out those
that cannot match and expands the others, each in the order of the transforms.
It ends with the first failure on the way, and then nothing of it is left but
the journal.
-/
import BoardQuery.Proofs.Expansion
import BoardQuery.Proofs.Lifecycle

namespace BoardQuery

namespace Filter

/-- Making an image reaches leaves by this one kind of call. -/
theorem called_of_mem_journal_transform (t : Transform) (f : Filter) :
    ∀ event ∈ (f.transform t).journal, ∃ leaf,
      event = .called (.transform t) leaf := by
  have hparts : ∀ parts : List Filter,
      (∀ f ∈ parts, ∀ event ∈ (f.transform t).journal,
        ∃ leaf, event = .called (.transform t) leaf) →
      ∀ event ∈ (Outcome.inTurn (transform t) parts).journal,
        ∃ leaf, event = .called (.transform t) leaf := by
    intro parts ih event hevent
    obtain ⟨f, hf, hmem⟩ := Outcome.exists_of_mem_journal_inTurn hevent
    exact ih f hf event hmem
  induction f using tree_induction with
  | bit mask => cases t <;> simp [transform]
  | scripted label script current => simp [transform]
  | probe traits cloneAs becomes => simp [transform]
  | all parts ih => simpa [transform, Outcome.map] using hparts parts ih
  | any parts ih => simpa [transform, Outcome.map] using hparts parts ih
  | deferred ts criterion base ih =>
      simpa [transform, Orbit.transform, Outcome.map] using ih
  | expanded ts criterion images count ih =>
      simp [transform, Orbit.transform, Outcome.map]

end Filter

namespace Orbit

theorem journal_candidate (base : Filter) (t : Transform) (i : Nat) :
    ∃ remarks, (candidate base t i).journal =
      (base.transform t).journal ++ remarks ∧
      remarks ⊆ [.pruned i t] := by
  cases hanswer : (base.transform t).answer with
  | error e => exact ⟨[], by simp [candidate, hanswer]⟩
  | ok f =>
      by_cases hf : f.isDegenerate = true
      · exact ⟨[.pruned i t], by simp [candidate, hanswer, hf]⟩
      · exact ⟨[], by simp [candidate, hanswer, hf]⟩

theorem notMem_drawing (base : Filter) (ts : List Transform) (leaf : String) :
    Event.called .expand leaf ∉ drawing base ts := by
  intro hmem
  obtain ⟨⟨t, i⟩, _, hevent⟩ := List.mem_flatMap.mp hmem
  obtain ⟨remarks, hjournal, hremarks⟩ := journal_candidate base t i
  change _ ∈ (candidate base t i).journal at hevent
  rw [hjournal] at hevent
  rcases List.mem_append.mp hevent with hcall | hremark
  · obtain ⟨_, heq⟩ := base.called_of_mem_journal_transform t _ hcall
    simp at heq
  · simpa using hremarks hremark

end Orbit

namespace Session

theorem put_self {s : Session} {n : Nat} {slot : Slot} (h : s.slot? n = some slot) :
    s.put n slot = s := by
  have hslot : s.slots[n]? = some (some slot) := Option.join_eq_some_iff.mp h
  obtain ⟨hn, hget⟩ := List.getElem?_eq_some_iff.mp hslot
  rw [put, ← hget, List.set_getElem_self]

/-- A session in which an orbit fails to expand is as it was before. -/
theorem run_expand_of_error {s : Session} {n : Nat} {slot : Slot} {o : Orbit}
    {e : Error} (h : s.slot? n = some slot) (hslot : slot.toFilter = .orbit o)
    (hfails : o.expand.answer = .error e) :
    (s.run (.expand n)).1 = s ∧ (s.run (.expand n)).2.answer =
      .error (.failed e) := by
  have hsubject : o.expand.subject = o := Orbit.subject_expand_of_error hfails
  cases slot with
  | orbit o' =>
      obtain rfl : o' = o := by simpa [Slot.toFilter] using hslot
      simp [run, withSlot, h, settle, Reply.on, hsubject, put_self h, hfails,
        Except.map, Except.mapError]
  | filter f =>
      obtain rfl : f = .orbit o := hslot
      simp [run, withSlot, h, settle, Filter.expand, Reply.on, hsubject, put_self h,
        hfails, Except.map, Except.mapError]

end Session

/-- Expanding an orbit is a transaction.  It ends in one of four ways, each with
a reply of its own: a transform fails, no image can match, an image that can
match fails to expand, or all of those take the place of the base.  Nothing is
expanded while the images are drawn. An expansion that fails leaves the orbit as
it was, and also the session that holds it. -/
theorem Orbit.expand_transaction (ts : List Transform)
    (criterion : Option Criterion) (base : Filter) :
    let o := Orbit.deferred ts criterion base
    (∀ reply, Ending ts criterion base reply ↔ reply = o.expand) ∧
    (∀ drawn leaf, Event.called .expand leaf ∉ drawing base drawn) ∧
    ∀ e, o.expand.answer = .error e →
      o.expand.subject = o ∧
      ∀ (s : Session) (n : Nat) (slot : Slot), s.slot? n = some slot →
        slot.toFilter = .orbit o →
        (s.run (.expand n)).1 = s ∧ (s.run (.expand n)).2.answer =
          .error (.failed e) := by
  intro o
  refine ⟨fun reply => ⟨Ending.eq_expand, ?_⟩, notMem_drawing base,
    fun e hfails => ?_⟩
  · rintro rfl
    obtain ⟨reply, hending⟩ := exists_ending ts criterion base
    rwa [← hending.eq_expand]
  · exact ⟨subject_expand_of_error hfails, fun s n slot hn hslot =>
      Session.run_expand_of_error hn hslot hfails⟩

/-- The first image expands, the second has an empty square mask, the third
fails, and the fourth is not told to expand. -/
example :
    let o :=
      Orbit.deferred [.symmetry 0, .symmetry 1, .symmetry 2, .symmetry 0] none
      (.scripted "leaf" ['Y', 'D', 'X'] '-')
    o.expand = { subject := o
                 answer := .error (.invalidConfiguration "expand leaf:X")
                 journal := [.called (.transform (.symmetry 0)) "leaf:-",
                   .called (.transform (.symmetry 1)) "leaf:-",
                   .pruned 1 (.symmetry 1),
                   .called (.transform (.symmetry 2)) "leaf:-",
                   .called (.transform (.symmetry 0)) "leaf:-",
                   .called .expand "leaf:Y", .called .expand "leaf:X"] } := by
  cbv

end BoardQuery
