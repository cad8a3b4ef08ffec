/-
The layout of a printed tree.  A tree whose leaves and transforms print on one
line has an entry for each transform, base and image of each of its orbits.
Each entry stands on a line of its own, behind two blanks for every orbit that
it is in; there are no other lines but the first one.
-/
import BoardQuery.Filter.Print
import BoardQuery.Proofs.Indentation
import BoardQuery.Proofs.Tree
import Mathlib.Algebra.Order.Ring.Nat
import Mathlib.Data.List.Forall2

namespace BoardQuery

inductive EntryKind where
  | transform (index total : Nat)
  | base
  | image (index total : Nat)
deriving DecidableEq, Repr

def EntryKind.label : EntryKind → String
  | transform index total => s!"Transform {index} of {total}: "
  | base => "Filter: "
  | image index total => s!"TransformedFilter {index} of {total}: "

/-- An entry of a printed tree, with the number of orbits that it is in. -/
structure Entry where
  enclosing : Nat
  kind : EntryKind
deriving DecidableEq, Repr

namespace Entry

def head (e : Entry) : List Char :=
  List.replicate (2 * e.enclosing) ' ' ++ e.kind.label.toList

/-- The entry inside one more orbit. -/
def deeper (e : Entry) : Entry :=
  { e with enclosing := e.enclosing + 1 }

theorem head_deeper (e : Entry) : e.deeper.head = ' ' :: ' ' :: e.head := rfl

end Entry

section Characters

theorem newline_notMem_toString (n : Nat) : '\n' ∉ (toString n).toList := by
  intro h
  rw [Nat.toString_eq_ofList_toDigits, String.toList_ofList] at h
  have hdigit := Nat.isDigit_of_mem_toDigits (by decide) (by decide) h
  contradiction

theorem newline_notMem_append {s t : String} :
    '\n' ∉ (s ++ t).toList ↔ '\n' ∉ s.toList ∧ '\n' ∉ t.toList := by
  rw [String.toList_append, List.mem_append, not_or]

/-- The words at the start of an entry for one of several things. -/
theorem newline_notMem_numbered {word : String} (hword : '\n' ∉ word.toList)
    (index total : Nat) :
    '\n' ∉ s!"{word}{index} of {total}: ".toList := by
  change '\n' ∉ (word ++ toString index ++ " of " ++ toString total ++ ": ").toList
  simp only [newline_notMem_append]
  exact ⟨⟨⟨⟨hword, newline_notMem_toString index⟩, by decide⟩,
    newline_notMem_toString total⟩,
    by decide⟩

theorem newline_notMem_label (kind : EntryKind) : '\n' ∉ kind.label.toList := by
  cases kind with
  | transform index total => exact newline_notMem_numbered (by decide) index total
  | base => decide
  | image index total => exact newline_notMem_numbered (by decide) index total

theorem Entry.newline_notMem_head (e : Entry) : '\n' ∉ e.head := by
  rw [head, List.mem_append, not_or]
  exact ⟨newline_notMem_blanks _, newline_notMem_label e.kind⟩

theorem head?_numbered {word : String} {c : Char}
    (hword : word.toList.head? = some c) (index total : Nat) :
    s!"{word}{index} of {total}: ".toList.head? = some c := by
  change (word ++ toString index ++ " of " ++ toString total ++ ": ").toList.head? =
    some c
  simp only [String.toList_append, List.head?_append, hword]
  rfl

theorem exists_head?_label (kind : EntryKind) :
    ∃ c, kind.label.toList.head? = some c ∧ c ≠ ' ' := by
  cases kind with
  | transform index total => exact ⟨'T', head?_numbered rfl index total, by decide⟩
  | base => exact ⟨'F', rfl, by decide⟩
  | image index total => exact ⟨'T', head?_numbered rfl index total, by decide⟩

/-- So a line that starts as that of an entry has no more blanks in front than
that. -/
theorem Entry.takeWhile_blank {e : Entry} {line : List Char} (h : e.head <+: line) :
    line.takeWhile (· == ' ') = List.replicate (2 * e.enclosing) ' ' := by
  obtain ⟨rest, rfl⟩ := h
  obtain ⟨c, hc, hne⟩ := exists_head?_label e.kind
  obtain ⟨tail, htail⟩ := List.head?_eq_some_iff.mp hc
  rw [head, List.append_assoc, htail, List.takeWhile_append_of_pos (by simp),
    List.cons_append, List.takeWhile_cons_of_neg (by simpa using hne),
    List.append_nil]

theorem newline_notMem_text (criterion : Criterion) :
    '\n' ∉ criterion.text.toList := by
  have hcount : ∀ n : UInt64, '\n' ∉ (toString n).toList :=
    fun n => newline_notMem_toString n.toNat
  cases criterion with
  | within range =>
      obtain ⟨min, max⟩ := range
      cases max with
      | none => exact newline_notMem_append.mpr ⟨hcount min, by decide⟩
      | some max =>
          rw [Criterion.text, CountRange.text]
          dsimp only
          split
          · exact hcount min
          · exact newline_notMem_append.mpr
              ⟨newline_notMem_append.mpr ⟨hcount min, by decide⟩, hcount max⟩
  | multipleOf n =>
      exact newline_notMem_append.mpr
        ⟨newline_notMem_append.mpr ⟨by decide, hcount n⟩, by decide⟩

/-- There is no newline in the heading of an orbit, whatever its criterion is. -/
theorem newline_notMem_heading (o : Orbit) : '\n' ∉ o.heading.toList := by
  unfold Orbit.heading
  generalize o.criterion = criterion
  simp only [newline_notMem_append]
  refine ⟨⟨⟨⟨by decide, newline_notMem_toString _⟩, by decide⟩,
    newline_notMem_toString _⟩, ?_⟩
  cases criterion with
  | none => decide
  | some criterion =>
      exact newline_notMem_append.mpr ⟨by decide, newline_notMem_text criterion⟩

end Characters

/-- What stands on one line in front of a text stands on its first line. -/
theorem splitOn_append_of_notMem {head tail first : List Char}
    {lines : List (List Char)} (hhead : '\n' ∉ head)
    (htail : tail.splitOn '\n' = first :: lines) :
    (head ++ tail).splitOn '\n' = (head ++ first) :: lines := by
  induction head with
  | nil => exact htail
  | cons c head ih =>
      rw [List.mem_cons, not_or] at hhead
      obtain ⟨hc, hhead⟩ := hhead
      rw [List.cons_append, List.splitOn_cons_eq_if_modifyHead,
        if_neg (by simpa using Ne.symm hc), ih hhead]
      rfl

/-- A text on several lines, of which each but the first is the line of an entry. -/
inductive Headed : List Entry → List Char → Prop
  | line {text : List Char} (h : '\n' ∉ text) : Headed [] text
  | next {entry : Entry} {entries : List Entry} {first tail : List Char}
      (hfirst : '\n' ∉ first)
      (htail : Headed entries tail) :
      Headed (entry :: entries) (first ++ '\n' :: (entry.head ++ tail))

namespace Headed

variable {entries later : List Entry} {text more : List Char}

theorem append (h : Headed entries text) (hmore : Headed later more) :
    Headed (entries ++ later) (text ++ more) := by
  induction h with
  | @line text htext =>
      cases hmore with
      | line hmore =>
          apply line
          rw [List.mem_append, not_or]
          exact ⟨htext, hmore⟩
      | @next entry entries first tail hfirst htail =>
          rw [← List.append_assoc]
          refine next ?_ htail
          rw [List.mem_append, not_or]
          exact ⟨htext, hfirst⟩
  | @next entry entries first tail hfirst _ ih =>
      have hnext : Headed (entry :: (entries ++ later))
          (first ++ '\n' :: (entry.head ++ (tail ++ more))) := next hfirst ih
      simpa only [List.append_assoc, List.cons_append] using hnext

/-- One level deeper every entry is in one more orbit. -/
theorem deeper (h : Headed entries text) :
    Headed (entries.map Entry.deeper) (indented 1 text) := by
  induction h with
  | line h =>
      rw [indented_of_notMem h]
      exact line h
  | @next entry entries first tail hfirst _ ih =>
      have hnext : Headed (entry.deeper :: entries.map Entry.deeper)
          (first ++ '\n' :: (entry.deeper.head ++ indented 1 tail)) :=
            next hfirst ih
      rw [Entry.head_deeper] at hnext
      rw [indented_append, indented_newline, indented_append,
        indented_of_notMem hfirst, indented_of_notMem entry.newline_notMem_head]
      exact hnext

/-- The lines of the text behind its first one start as those of the entries. -/
theorem exists_lines (h : Headed entries text) :
    ∃ first lines, text.splitOn '\n' = first :: lines ∧
      List.Forall₂ (fun entry line => entry.head <+: line) entries lines := by
  induction h with
  | line h => exact ⟨_, [], List.splitOn_eq_singleton h, .nil⟩
  | @next entry entries first tail hfirst _ ih =>
      obtain ⟨start, lines, hsplit, hlines⟩ := ih
      refine ⟨first, (entry.head ++ start) :: lines, ?_,
        .cons (List.prefix_append _ _) hlines⟩
      rw [List.splitOn_append_cons_self_of_not_mem hfirst,
        splitOn_append_of_notMem entry.newline_notMem_head hsplit]

end Headed

namespace Print

/-- A print that fails at every depth, or writes at every depth the lines of
some entries. -/
def Lays (a : Print) (entries : List Entry) : Prop :=
  (∃ written, a.Writes written ∧ Headed entries written) ∨ a.Fails

section Lays

variable {a b : Print} {entries later : List Entry}

theorem lays_text {s : String} (h : '\n' ∉ s.toList) : (text s).Lays [] :=
  .inl ⟨_, writes_text h, .line h⟩

theorem lays_fail : fail.Lays [] :=
  .inr fails_fail

theorem Lays.andThen (ha : a.Lays entries) (hb : b.Lays later) :
    (a.andThen b).Lays (entries ++ later) := by
  rcases ha with ⟨written, hwrites, hheaded⟩ | hfails
  · rcases hb with ⟨more, hmore, hlater⟩ | hfails
    · exact .inl ⟨_, hwrites.andThen hmore, hheaded.append hlater⟩
    · exact .inr (hwrites.andThen_fails hfails)
  · exact .inr (hfails.andThen b)

/-- Prints in turn lay their entries one after the other. -/
theorem Lays.inTurn {as : List Print} {rows : List (List Entry)}
    (h : List.Forall₂ Lays as rows) :
    (inTurn as).Lays rows.flatten := by
  induction h with
  | nil => exact .inl ⟨[], writes_inTurn_nil, .line List.not_mem_nil⟩
  | cons ha _ ih => exact ha.andThen ih

theorem Lays.inTurn_map {α : Type} {as : List α} {print : α → Print}
    {row : α → List Entry} (h : ∀ a ∈ as, (print a).Lays (row a)) :
    (Print.inTurn (as.map print)).Lays (as.flatMap row) := by
  apply Lays.inTurn
  rw [List.forall₂_map_left_iff, List.forall₂_map_right_iff, List.forall₂_same]
  exact h

/-- An entry stands in front of the entries of what is printed in it, all one
level deeper. -/
theorem Lays.entry (ha : a.Lays entries) (kind : EntryKind) :
    (Print.entry (.andThen (.text kind.label) a)).Lays
      ((⟨0, kind⟩ :: entries).map Entry.deeper) := by
  have hlabel := writes_text (newline_notMem_label kind)
  rcases ha with ⟨written, hwrites, hheaded⟩ | hfails
  · refine .inl ⟨_, (hlabel.andThen hwrites).entry, ?_⟩
    rw [indented_append, indented_of_notMem (newline_notMem_label kind)]
    exact @Headed.next (Entry.deeper ⟨0, kind⟩) _ [] _ List.not_mem_nil
      hheaded.deeper
  · exact .inr (hlabel.andThen_fails hfails).entry

end Lays

/-- A print that is a text or fails. -/
def Plain (a : Print) : Prop :=
  (∃ s, a = text s) ∨ a = fail

/-- A print that has no newline in its text, if it has one. -/
def SingleLine (a : Print) : Prop :=
  ∀ s, a.render = .ok s → '\n' ∉ s.toList

theorem singleLine_text_iff {s : String} :
    (text s).SingleLine ↔ '\n' ∉ s.toList := by
  have hrender : (text s).render = .ok s := by
    simp [render, text, Printer.write]
  rw [SingleLine, hrender]
  constructor
  · exact fun h => h s rfl
  · rintro h _ ⟨⟩
    exact h

theorem Plain.lays {a : Print} (h : a.Plain) (hline : a.SingleLine) :
    a.Lays [] := by
  rcases h with ⟨s, rfl⟩ | rfl
  · exact lays_text (singleLine_text_iff.mp hline)
  · exact lays_fail

end Print

theorem Transform.plain_print (t : Transform) : t.print.Plain := by
  cases t with
  | unprintable => exact .inr rfl
  | _ => exact .inl ⟨_, rfl⟩

namespace Filter

def transformEntries (ts : List Transform) : List Entry :=
  ts.zipIdx.map fun (_, i) => ⟨0, .transform i ts.length⟩

/-- The entries for several images, each with the entries that are printed in it. -/
def imageEntries (rows : List (List Entry)) : List Entry :=
  rows.zipIdx.flatMap fun (row, i) => ⟨0, .image i rows.length⟩ :: row

mutual

/-- The entries of a printed filter. -/
def entries : Filter → List Entry
  | all parts => (entriesOfEach parts).flatten
  | any parts => (entriesOfEach parts).flatten
  | orbit (.deferred ts _ base) =>
      (transformEntries ts ++ ⟨0, .base⟩ :: base.entries).map Entry.deeper
  | orbit (.expanded ts _ images _) =>
      (transformEntries ts ++ imageEntries (entriesOfEach images)).map Entry.deeper
  | _ => []

def entriesOfEach : List Filter → List (List Entry)
  | [] => []
  | f :: rest => f.entries :: entriesOfEach rest

end

theorem entriesOfEach_eq_map (fs : List Filter) :
    entriesOfEach fs = fs.map entries := by
  induction fs with
  | nil => rfl
  | cons f rest ih =>
      rw [List.map_cons, ← ih]
      rfl

theorem entries_all (parts : List Filter) :
    (all parts).entries = parts.flatMap entries := by
  rw [entries, entriesOfEach_eq_map, List.flatMap_def]

theorem entries_any (parts : List Filter) :
    (any parts).entries = parts.flatMap entries := by
  rw [entries, entriesOfEach_eq_map, List.flatMap_def]

theorem entries_deferred (ts : List Transform) (criterion : Option Criterion)
    (base : Filter) :
    (orbit (.deferred ts criterion base)).entries =
      (transformEntries ts).map Entry.deeper ++
        (⟨0, .base⟩ :: base.entries).map Entry.deeper := by
  rw [entries, List.map_append]

theorem entries_expanded (ts : List Transform) (criterion : Option Criterion)
    (images : List Filter) (count : Nat) :
    (orbit (.expanded ts criterion images count)).entries =
      (transformEntries ts).map Entry.deeper ++
        images.zipIdx.flatMap fun (f, i) =>
          (⟨0, .image i images.length⟩ :: f.entries).map Entry.deeper := by
  rw [entries, List.map_append, entriesOfEach_eq_map, imageEntries, List.length_map,
    List.zipIdx_map, List.flatMap_map, List.map_flatMap]
  rfl

/-- What a filter prints itself that is not its heading. -/
def ownPrints : Filter → List Print
  | all _ => []
  | any _ => []
  | orbit o => o.transforms.map Transform.print
  | leaf => [leaf.print]

/-- A tree whose leaves and transforms print on one line each. -/
def SingleLine (f : Filter) : Prop :=
  ∀ g ∈ f.nodes, ∀ a ∈ g.ownPrints, a.SingleLine

theorem singleLine_all {parts : List Filter} :
    (all parts).SingleLine ↔ ∀ f ∈ parts, f.SingleLine :=
  forall_mem_nodes_all.trans (and_iff_right nofun)

theorem singleLine_any {parts : List Filter} :
    (any parts).SingleLine ↔ ∀ f ∈ parts, f.SingleLine :=
  forall_mem_nodes_any.trans (and_iff_right nofun)

theorem singleLine_deferred {ts : List Transform} {criterion : Option Criterion}
    {base : Filter} :
    (orbit (.deferred ts criterion base)).SingleLine ↔
      (∀ t ∈ ts, t.print.SingleLine) ∧ base.SingleLine :=
  forall_mem_nodes_deferred.trans (and_congr_left' List.forall_mem_map)

theorem singleLine_expanded {ts : List Transform} {criterion : Option Criterion}
    {images : List Filter} {count : Nat} :
    (orbit (.expanded ts criterion images count)).SingleLine ↔
      (∀ t ∈ ts, t.print.SingleLine) ∧ ∀ f ∈ images, f.SingleLine :=
  forall_mem_nodes_expanded.trans (and_congr_left' List.forall_mem_map)

theorem singleLine_leaf {f : Filter} (hnodes : f.nodes = [f])
    (hown : f.ownPrints = [f.print]) :
    f.SingleLine ↔ f.print.SingleLine := by
  rw [SingleLine, hnodes, List.forall_mem_singleton, hown,
    List.forall_mem_singleton]

theorem plain_print {f : Filter} (h : f.isLeaf = true) : f.print.Plain := by
  cases f with
  | bit mask => exact .inl ⟨_, rfl⟩
  | scripted label script current =>
      rw [print]
      split
      · exact .inr rfl
      · exact .inl ⟨_, rfl⟩
  | probe traits cloneAs becomes =>
      rw [print]
      split
      · exact .inr rfl
      · exact .inl ⟨_, rfl⟩
  | all parts => contradiction
  | any parts => contradiction
  | orbit o => contradiction

theorem lays_composite {name : String} (hname : '\n' ∉ name.toList)
    {parts : List Filter} (h : ∀ f ∈ parts, f.print.Lays f.entries) :
    (printComposite name (parts.map print)).Lays (parts.flatMap entries) := by
  have hopening : '\n' ∉ s!"<{name}".toList :=
    newline_notMem_append.mpr ⟨by decide, hname⟩
  have hparts :
      (Print.inTurn ((parts.map print).map fun part =>
      .andThen (.text " ") part)).Lays
        (parts.flatMap entries) := by
    rw [List.map_map]
    apply Print.Lays.inTurn_map
    exact fun f hf => (Print.lays_text (by decide)).andThen (h f hf)
  have hrows := Print.Lays.inTurn (.cons (Print.lays_text hopening) (.cons hparts
    (.cons (Print.lays_text (s := ">") (by decide)) .nil)))
  rw [printComposite]
  simpa using hrows

theorem lays_transforms {ts : List Transform} (h : ∀ t ∈ ts, t.print.SingleLine) :
    (Print.inTurn (Orbit.transformEntries ts)).Lays
      ((transformEntries ts).map Entry.deeper) := by
  rw [transformEntries, List.map_map, List.map_eq_flatMap, Orbit.transformEntries]
  apply Print.Lays.inTurn_map
  rintro ⟨t, i⟩ hti
  have ht := h t (List.fst_mem_of_mem_zipIdx hti)
  exact (t.plain_print.lays ht).entry (.transform i ts.length)

theorem lays_images {images : List Filter}
    (h : ∀ f ∈ images, f.print.Lays f.entries) :
    (Print.inTurn (Orbit.imageEntries (images.map print))).Lays
      (images.zipIdx.flatMap fun (f, i) =>
        (⟨0, .image i images.length⟩ :: f.entries).map Entry.deeper) := by
  rw [Orbit.imageEntries, List.zipIdx_map, List.map_map, List.length_map]
  apply Print.Lays.inTurn_map
  rintro ⟨f, i⟩ hfi
  exact (h f (List.fst_mem_of_mem_zipIdx hfi)).entry (.image i images.length)

/-- An orbit prints its heading, its transforms and what it has of a base or
images. -/
theorem lays_orbit (o : Orbit) {below : Print} {later : List Entry}
    (hown : ∀ t ∈ o.transforms, t.print.SingleLine) (hbelow : below.Lays later) :
    (Print.inTurn [.text o.heading, .inTurn (Orbit.transformEntries o.transforms),
        below, .text " TransformNode>"]).Lays
      ((transformEntries o.transforms).map Entry.deeper ++ later) := by
  have htransforms := lays_transforms hown
  have hrows :=
    Print.Lays.inTurn (.cons (Print.lays_text (newline_notMem_heading o))
    (.cons htransforms (.cons hbelow
      (.cons (Print.lays_text (s := " TransformNode>") (by decide)) .nil))))
  simpa using hrows

/-- A tree on single lines prints its entries, and nothing else on lines of its
own. -/
theorem lays_print {f : Filter} (h : f.SingleLine) : f.print.Lays f.entries := by
  induction f using tree_induction with
  | bit mask => exact (plain_print rfl).lays ((singleLine_leaf rfl rfl).mp h)
  | scripted label script current =>
      exact (plain_print rfl).lays ((singleLine_leaf rfl rfl).mp h)
  | probe traits cloneAs becomes =>
      exact (plain_print rfl).lays ((singleLine_leaf rfl rfl).mp h)
  | all parts ih =>
      rw [print, printEach_eq_map, entries_all]
      exact lays_composite (by decide) fun f hf =>
        ih f hf (singleLine_all.mp h f hf)
  | any parts ih =>
      rw [print, printEach_eq_map, entries_any]
      exact lays_composite (by decide) fun f hf =>
        ih f hf (singleLine_any.mp h f hf)
  | deferred ts criterion base ih =>
      obtain ⟨hown, hbase⟩ := singleLine_deferred.mp h
      have hentry : (Print.entry (.andThen (.text "Filter: ") base.print)).Lays
          ((⟨0, .base⟩ :: base.entries).map Entry.deeper) := (ih hbase).entry .base
      rw [entries_deferred, print, Orbit.print]
      exact lays_orbit (.deferred ts criterion base) hown hentry
  | expanded ts criterion images count ih =>
      obtain ⟨hown, himages⟩ := singleLine_expanded.mp h
      have hentries := lays_images fun f hf => ih f hf (himages f hf)
      rw [entries_expanded, print, Orbit.print, printEach_eq_map]
      exact lays_orbit (.expanded ts criterion images count) hown hentries

def orbitChildren : Orbit → List Filter
  | .deferred _ _ base => [base]
  | .expanded _ _ images _ => images

/-- The number of entries that a filter has by itself. -/
def ownEntries : Filter → Nat
  | orbit o => o.transforms.length + (orbitChildren o).length
  | _ => 0

theorem length_flatMap_entries {fs : List Filter}
    (h : ∀ f ∈ fs, f.entries.length = (f.nodes.map ownEntries).sum) :
    (fs.flatMap entries).length = ((fs.flatMap nodes).map ownEntries).sum := by
  induction fs with
  | nil => rfl
  | cons f rest ih =>
      obtain ⟨hf, hrest⟩ := List.forall_mem_cons.mp h
      rw [List.flatMap_cons, List.flatMap_cons, List.length_append, List.map_append,
        List.sum_append, hf, ih hrest]

theorem length_transformEntries (ts : List Transform) :
    (transformEntries ts).length = ts.length := by
  rw [transformEntries, List.length_map, List.length_zipIdx]

theorem length_imageEntries (images : List Filter) (total first : Nat) :
    ((images.zipIdx first).flatMap fun (f, i) =>
        ((⟨0, .image i total⟩ : Entry) :: f.entries).map Entry.deeper).length =
      images.length + (images.flatMap entries).length := by
  induction images generalizing first with
  | nil => rfl
  | cons f rest ih =>
      rw [List.zipIdx_cons, List.flatMap_cons, List.flatMap_cons,
        List.length_append, ih, List.length_append, List.length_map,
        List.length_cons, List.length_cons]
      omega

theorem length_entries (f : Filter) :
    f.entries.length = (f.nodes.map ownEntries).sum := by
  induction f using tree_induction with
  | bit mask => rfl
  | scripted label script current => rfl
  | probe traits cloneAs becomes => rfl
  | all parts ih =>
      rw [entries_all, nodes_all, List.map_cons, List.sum_cons,
        length_flatMap_entries ih]
      exact (Nat.zero_add _).symm
  | any parts ih =>
      rw [entries_any, nodes_any, List.map_cons, List.sum_cons,
        length_flatMap_entries ih]
      exact (Nat.zero_add _).symm
  | deferred ts criterion base ih =>
      have hown : ownEntries (orbit (.deferred ts criterion base)) =
        ts.length + 1 := rfl
      rw [entries_deferred, List.length_append, List.length_map, List.length_map,
        List.length_cons, length_transformEntries, ih, nodes_deferred,
        List.map_cons, List.sum_cons, hown, Nat.add_assoc, Nat.add_comm 1]
  | expanded ts criterion images count ih =>
      have hown : ownEntries (orbit (.expanded ts criterion images count)) =
          ts.length + images.length := rfl
      rw [entries_expanded, List.length_append, List.length_map,
        length_transformEntries, length_imageEntries, length_flatMap_entries ih,
        nodes_expanded, List.map_cons, List.sum_cons, hown, Nat.add_assoc]

/-- No entry of a tree that is printed at this depth is deeper than a printer
can go. -/
def FitsAt (f : Filter) (depth : Nat) : Prop :=
  ∀ e ∈ f.entries, depth + e.enclosing ≤ Printer.maxDepth

instance (f : Filter) (depth : Nat) : Decidable (f.FitsAt depth) :=
  inferInstanceAs (Decidable (∀ e ∈ f.entries,
    depth + e.enclosing ≤ Printer.maxDepth))

/-- A tree whose leaves and transforms print on one line each prints alike at
every depth that leaves room for its entries.  It leaves the printer at that
depth, also when it fails, and it fails at all depths or at none. What it writes
is its text with the blanks of the depth behind every newline.  That text has
one line for each transform and each child of its orbits behind the first, and
each of these starts with two blanks and no more for every orbit around, and
then says what it is for. -/
theorem print_layout {f : Filter} (h : f.SingleLine) :
    (∀ p : Printer, f.FitsAt p.depth → (f.print p).printer.depth = p.depth ∧
      ((f.print p).complete = true ↔ ∃ text, f.render = .ok text)) ∧
    ∀ text, f.FitsAt 0 → f.render = .ok text →
      (∀ p : Printer, f.FitsAt p.depth → (f.print p).printer.out =
        p.out ++ String.ofList (indented p.depth text.toList)) ∧
      (text.toList.splitOn '\n').length = 1 + (f.nodes.map ownEntries).sum ∧
      List.Forall₂
        (fun entry line => entry.head <+: line ∧
          line.takeWhile (· == ' ') = List.replicate (2 * entry.enclosing) ' ')
        f.entries (text.toList.splitOn '\n').tail := by
  rcases lays_print h with ⟨written, hwrites, hheaded⟩ | hfails
  · have hrender : f.render = .ok (String.ofList written) := hwrites.render_eq
    refine ⟨fun p _ => ?_, fun text _ htext => ?_⟩
    · rw [hwrites p]
      exact ⟨rfl, fun _ => ⟨_, hrender⟩, fun _ => rfl⟩
    · obtain rfl := Except.ok.inj (hrender.symm.trans htext)
      obtain ⟨first, lines, hsplit, hlines⟩ := hheaded.exists_lines
      rw [String.toList_ofList, hsplit, ← length_entries, hlines.length_eq,
        Nat.add_comm]
      refine ⟨fun p _ => ?_, rfl, ?_⟩
      · rw [hwrites p]
        rfl
      · exact hlines.imp fun entry line hhead =>
          ⟨hhead, Entry.takeWhile_blank hhead⟩
  · have hrender : f.render = .error .unprintable := hfails.render_eq
    refine ⟨fun p _ => ⟨(hfails p).2, ?_⟩, fun text _ htext => ?_⟩
    · rw [(hfails p).1, hrender]
      simp
    · rw [hrender] at htext
      contradiction

/-- An orbit in a composite in an orbit, which has six lines, and the same tree
with a part that cannot be printed, three levels deep. -/
theorem print_layout_nested :
    let inner : Filter :=
      .orbit (.expanded [.symmetry 2] none [.bit 1, .scripted "x" [] 'M'] 0)
    let tree (part : Filter) : Filter :=
      .orbit (.deferred [.shift 1] (some (.within ⟨1, none⟩)) (.all [inner, part]))
    let cut := (tree (.scripted "y" [] 'P')).print { depth := 3 }
    (tree (.bit 2)).FitsAt 0 ∧ (tree (.scripted "y" [] 'P')).FitsAt 3 ∧
      (tree (.bit 2)).entries =
        [⟨1, .transform 0 1⟩, ⟨1, .base⟩, ⟨2, .transform 0 1⟩, ⟨2, .image 0 2⟩,
          ⟨2, .image 1 2⟩] ∧
      (∃ text, (tree (.bit 2)).render = .ok text ∧
        (text.toList.splitOn '\n').length = 6) ∧
      cut.complete = false ∧ cut.printer.depth = 3 := by
  intro inner tree cut
  have hone : (bit 1).SingleLine :=
    (singleLine_leaf rfl rfl).mpr (Print.singleLine_text_iff.mpr (by decide))
  have htwo : (bit 2).SingleLine :=
    (singleLine_leaf rfl rfl).mpr (Print.singleLine_text_iff.mpr (by decide))
  have hinner : inner.SingleLine := by
    apply singleLine_expanded.mpr
    refine ⟨List.forall_mem_singleton.mpr
      (Print.singleLine_text_iff.mpr (by decide)), ?_⟩
    refine List.forall_mem_cons.mpr ⟨hone, List.forall_mem_singleton.mpr ?_⟩
    exact (singleLine_leaf rfl rfl).mpr (Print.singleLine_text_iff.mpr (by decide))
  have htree : ∀ part : Filter, part.SingleLine → (tree part).SingleLine := by
    intro part hpart
    apply singleLine_deferred.mpr
    refine ⟨List.forall_mem_singleton.mpr
      (Print.singleLine_text_iff.mpr (by decide)), ?_⟩
    apply singleLine_all.mpr
    exact List.forall_mem_cons.mpr ⟨hinner, List.forall_mem_singleton.mpr hpart⟩
  have hfits : (tree (.bit 2)).FitsAt 0 := by decide
  have hfits' : (tree (.scripted "y" [] 'P')).FitsAt 3 := by decide
  have hprinted := htree (bit 2) htwo
  have hcut := htree (scripted "y" [] 'P') ((singleLine_leaf rfl rfl).mpr nofun)
  obtain ⟨hplace, hlines⟩ := print_layout hprinted
  obtain ⟨text, htext⟩ := (hplace {} hfits).2.mp (by decide +kernel)
  obtain ⟨-, hlength, -⟩ := hlines text hfits htext
  have hdepth := ((print_layout hcut).1 { depth := 3 } hfits').1
  exact ⟨hfits, hfits', rfl, ⟨text, htext, hlength⟩, by decide +kernel, hdepth⟩

end Filter

end BoardQuery
