/-
Prints and their place.  What a print writes at some depth is what it writes at
the top, with the blanks of that depth behind every newline; and whether it
succeeds or not, it leaves the printer at the depth at which it found it.
-/
import BoardQuery.Printer

namespace BoardQuery

/-- A text with the blanks of a depth behind every newline. -/
def indented (depth : Nat) (text : List Char) : List Char :=
  text.flatMap fun c => if c = '\n' then '\n' :: List.replicate (2 * depth) ' '
    else [c]

section Indented

variable {text : List Char}

@[simp] theorem indented_nil (depth : Nat) : indented depth [] = [] := rfl

@[simp] theorem indented_append (depth : Nat) (text later : List Char) :
    indented depth (text ++ later) = indented depth text ++ indented depth later :=
  List.flatMap_append

@[simp] theorem indented_newline (depth : Nat) (text : List Char) :
    indented depth ('\n' :: text) =
      '\n' :: (List.replicate (2 * depth) ' ' ++ indented depth text) := by
  simp [indented]

@[simp] theorem indented_cons_of_ne {c : Char} (hc : c ≠ '\n') (depth : Nat)
    (text : List Char) :
    indented depth (c :: text) = c :: indented depth text := by
  simp [indented, hc]

theorem indented_of_notMem (h : '\n' ∉ text) (depth : Nat) :
    indented depth text = text := by
  induction text with
  | nil => rfl
  | cons c rest ih =>
      rw [List.mem_cons, not_or] at h
      obtain ⟨hc, hrest⟩ := h
      rw [indented_cons_of_ne (Ne.symm hc), ih hrest]

theorem newline_notMem_blanks (n : Nat) : '\n' ∉ List.replicate n ' ' := by
  simp

theorem indented_indented (depth depth' : Nat) (text : List Char) :
    indented depth (indented depth' text) = indented (depth + depth') text := by
  induction text with
  | nil => rfl
  | cons c rest ih =>
      by_cases hc : c = '\n'
      · rw [hc, indented_newline, indented_newline, indented_newline,
          indented_append, ih, indented_of_notMem (newline_notMem_blanks _),
          ← List.append_assoc, List.replicate_append_replicate, Nat.mul_add]
      · rw [indented_cons_of_ne hc, indented_cons_of_ne hc, indented_cons_of_ne hc,
          ih]

@[simp] theorem indented_zero (text : List Char) : indented 0 text = text := by
  induction text with
  | nil => rfl
  | cons c rest ih =>
      by_cases hc : c = '\n'
      · rw [hc, indented_newline, ih]
        rfl
      · rw [indented_cons_of_ne hc, ih]

end Indented

namespace Print

/-- A print that writes a text, at every depth with the blanks of that depth. -/
def Writes (a : Print) (text : List Char) : Prop :=
  ∀ p : Printer,
    a p = { printer := p.write (String.ofList (indented p.depth text)) }

/-- A print that fails at every depth and does not change the depth. -/
def Fails (a : Print) : Prop :=
  ∀ p : Printer, (a p).complete = false ∧ (a p).printer.depth = p.depth

section Places

variable {a b : Print} {written later : List Char}

theorem writes_text {s : String} (h : '\n' ∉ s.toList) :
    (text s).Writes s.toList := by
  intro p
  rw [indented_of_notMem h, String.ofList_toList]
  rfl

theorem fails_fail : fail.Fails :=
  fun _ => ⟨rfl, rfl⟩

theorem writes_inTurn_nil : (inTurn []).Writes [] := by
  intro p
  simp [inTurn, Printer.write]

theorem Writes.andThen (ha : a.Writes written) (hb : b.Writes later) :
    (a.andThen b).Writes (written ++ later) := by
  intro p
  rw [Print.andThen, ha p]
  dsimp only
  rw [if_pos rfl, hb]
  simp [Printer.write, String.append_assoc]

theorem Writes.andThen_fails (ha : a.Writes written) (hb : b.Fails) :
    (a.andThen b).Fails := by
  intro p
  rw [Print.andThen, ha p]
  exact hb _

theorem Fails.andThen (ha : a.Fails) (b : Print) : (a.andThen b).Fails := by
  intro p
  obtain ⟨hfailed, hdepth⟩ := ha p
  rw [Print.andThen, hfailed, if_neg Bool.false_ne_true]
  exact ⟨hfailed, hdepth⟩

/-- An entry is what it writes one level deeper, on a line of its own. -/
theorem Writes.entry (ha : a.Writes written) :
    (entry a).Writes ('\n' :: ' ' :: ' ' :: indented 1 written) := by
  intro p
  let blanks := List.replicate (2 * p.depth) ' '
  have hdeeper : List.replicate (2 * (p.depth + 1)) ' ' = blanks ++ [' ', ' '] :=
    List.replicate_append_replicate.symm
  have htext : indented p.depth ('\n' :: ' ' :: ' ' :: indented 1 written) =
      ['\n'] ++ List.replicate (2 * (p.depth + 1)) ' ' ++
        indented (p.depth + 1) written := by
    rw [hdeeper, indented_newline, indented_cons_of_ne (by decide),
      indented_cons_of_ne (by decide), indented_indented]
    simp [blanks]
  rw [Print.entry, ha, htext, String.ofList_append, String.ofList_append]
  simp [Printer.write, Printer.newline, Printer.indent, Printer.tab,
    Printer.unindent, String.append_assoc]

theorem Fails.entry (ha : a.Fails) : (entry a).Fails := by
  intro p
  obtain ⟨hfailed, hdepth⟩ := ha p.newline.indent.tab
  refine ⟨hfailed, ?_⟩
  change (a p.newline.indent.tab).printer.depth - 1 = p.depth
  rw [hdepth]
  rfl

theorem Writes.render_eq (ha : a.Writes written) :
    a.render = .ok (String.ofList written) := by
  rw [render, ha]
  simp [Printer.write]

theorem Fails.render_eq (ha : a.Fails) : a.render = .error .unprintable := by
  rw [render, (ha {}).1]
  rfl

end Places

end Print

end BoardQuery
