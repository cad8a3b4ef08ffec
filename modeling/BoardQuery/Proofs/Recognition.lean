/-
Recognising printed trees.  What a tree of bits, composites and orbits prints
shows where it ends, at any depth and whatever follows it.  So two such trees
that print the same text can differ in nothing but the counts of their last
tests, which are not printed.
-/
import BoardQuery.Proofs.Consultation
import BoardQuery.Proofs.Layout

namespace BoardQuery

section Numbers

theorem digitChar_inj {m n : Nat} (hm : m < 16) (hn : n < 16)
    (h : m.digitChar = n.digitChar) :
    m = n := by
  have hall : ∀ m < 16, ∀ n < 16, m.digitChar = n.digitChar → m = n := by decide
  exact hall m hm n hn h

/-- In a base up to sixteen different numbers have different digits. -/
theorem toDigits_inj {b m n : Nat} (hb : 1 < b) (hb' : b ≤ 16)
    (h : Nat.toDigits b m = Nat.toDigits b n) : m = n := by
  induction m using Nat.strong_induction_on generalizing n with
  | h m ih =>
      rw [Nat.toDigits_eq_if hb, Nat.toDigits_eq_if (n := n) hb] at h
      split_ifs at h with hm hn hn
      · exact digitChar_inj (by omega) (by omega) (List.singleton_inj.mp h)
      · simp [List.singleton_eq_append_iff, Nat.toDigits_ne_nil] at h
      · simp [List.append_eq_singleton_iff, Nat.toDigits_ne_nil] at h
      · obtain ⟨hinit, hlast⟩ := List.append_inj' h rfl
        have hdiv : m / b = n / b :=
          ih (m / b) (Nat.div_lt_self (by omega) hb) hinit
        have hlt : ∀ k, k % b < 16 := fun k =>
          Nat.lt_of_lt_of_le (Nat.mod_lt k (by omega)) hb'
        have hmod : m % b = n % b :=
          digitChar_inj (hlt m) (hlt n) (List.singleton_inj.mp hlast)
        rw [← Nat.div_add_mod m b, ← Nat.div_add_mod n b, hdiv, hmod]

theorem exists_digitChar_of_mem_toDigits {b n : Nat} (hb : 1 < b) {c : Char}
    (h : c ∈ Nat.toDigits b n) : ∃ k, c = Nat.digitChar k := by
  induction n using Nat.strong_induction_on with
  | h n ih =>
      rw [Nat.toDigits_eq_if hb] at h
      split_ifs at h with hn
      · exact ⟨n, List.mem_singleton.mp h⟩
      · rcases List.mem_append.mp h with h | h
        · exact ih (n / b) (Nat.div_lt_self (by omega) hb) h
        · exact ⟨n % b, List.mem_singleton.mp h⟩

/-- Characters of one sort show where they end, if a character of another sort
follows. -/
theorem run_append_inj {P : Char → Prop} {run run' rest rest' : List Char}
    (hrun : ∀ c ∈ run, P c) (hrun' : ∀ c ∈ run', P c)
    (hrest : ∀ c ∈ rest.head?, ¬P c) (hrest' : ∀ c ∈ rest'.head?, ¬P c)
    (h : run ++ rest = run' ++ rest') :
    run = run' ∧ rest = rest' := by
  induction run generalizing run' with
  | nil =>
      cases run' with
      | nil => exact ⟨rfl, h⟩
      | cons c run' =>
          obtain rfl : rest = c :: (run' ++ rest') := h
          exact absurd (hrun' c List.mem_cons_self) (hrest c rfl)
  | cons c run ih =>
      obtain ⟨hc, hrun⟩ := List.forall_mem_cons.mp hrun
      cases run' with
      | nil =>
          obtain rfl : c :: (run ++ rest) = rest' := h
          exact absurd hc (hrest' c rfl)
      | cons c' run' =>
          obtain ⟨rfl, htail⟩ := List.cons.inj h
          obtain ⟨rfl, hrest⟩ := ih hrun (List.forall_mem_cons.mp hrun').2 htail
          exact ⟨rfl, hrest⟩

/-- No digit comes next. -/
def EndsDigits (rest : List Char) : Prop :=
  ∀ c ∈ rest.head?, c.isDigit = false

theorem isDigit_of_mem_toString {n : Nat} {c : Char} (h : c ∈ (toString n).toList) :
    c.isDigit = true := by
  rw [Nat.toString_eq_ofList_toDigits, String.toList_ofList] at h
  exact Nat.isDigit_of_mem_toDigits (by decide) (by decide) h

theorem exists_toString_cons (n : Nat) :
    ∃ c digits, (toString n).toList = c :: digits ∧ c.isDigit = true := by
  cases hdigits : (toString n).toList with
  | nil =>
      rw [Nat.toString_eq_ofList_toDigits, String.toList_ofList] at hdigits
      exact absurd hdigits Nat.toDigits_ne_nil
  | cons c digits =>
      exact ⟨c, digits, rfl, isDigit_of_mem_toString (hdigits ▸ List.mem_cons_self)⟩

/-- A number shows where it ends, if no digit follows. -/
theorem toString_append_inj {m n : Nat} {rest rest' : List Char}
    (hrest : EndsDigits rest) (hrest' : EndsDigits rest')
    (h : (toString m).toList ++ rest = (toString n).toList ++ rest') :
    m = n ∧ rest = rest' := by
  obtain ⟨hdigits, htail⟩ := run_append_inj (P := fun c => c.isDigit = true)
    (fun _ => isDigit_of_mem_toString) (fun _ => isDigit_of_mem_toString)
    (fun c hc => by simp [hrest c hc]) (fun c hc => by simp [hrest' c hc]) h
  rw [Nat.toString_eq_ofList_toDigits, Nat.toString_eq_ofList_toDigits,
    String.toList_ofList, String.toList_ofList] at hdigits
  exact ⟨toDigits_inj (by decide) (by decide) hdigits, htail⟩

end Numbers

/-- Two things whose texts, with whatever follows them, are equal only if the
things agree and the same follows. -/
def Tells {α γ : Type} (key : α → γ) (text : α → List Char) (a b : α) : Prop :=
  ∀ rest rest', text a ++ rest = text b ++ rest' → key a = key b ∧ rest = rest'

section Tells

variable {α γ : Type} {key : α → γ} {text : α → List Char} {as bs : List α}
  {rest rest' : List Char}

/-- Things behind a blank each show where they end, if no blank follows. -/
theorem Tells.parts (h : ∀ a ∈ as, ∀ b ∈ bs, Tells key text a b)
    (heq : (as.flatMap fun a => ' ' :: text a) ++ '>' :: rest =
      (bs.flatMap fun b => ' ' :: text b) ++ '>' :: rest') :
    as.map key = bs.map key ∧ rest = rest' := by
  induction as generalizing bs with
  | nil =>
      cases bs with
      | nil => exact ⟨rfl, (List.cons.inj heq).2⟩
      | cons b bs => exact absurd (List.cons.inj heq).1 (by decide)
  | cons a as ih =>
      cases bs with
      | nil => exact absurd (List.cons.inj heq).1 (by decide)
      | cons b bs =>
          simp only [List.flatMap_cons, List.cons_append, List.append_assoc,
            List.cons.injEq, true_and] at heq
          obtain ⟨hkey, htail⟩ :=
            h a List.mem_cons_self b List.mem_cons_self _ _ heq
          obtain ⟨hkeys, hrest⟩ := ih (fun a ha b hb =>
            h a (List.mem_cons_of_mem _ ha) b (List.mem_cons_of_mem _ hb)) htail
          exact ⟨by rw [List.map_cons, List.map_cons, hkey, hkeys], hrest⟩

/-- Things behind a head for each show where they end, if their number is known. -/
theorem Tells.entries (head : Nat → List Char) (first : Nat)
    (hlength : as.length = bs.length) (h : ∀ a ∈ as, ∀ b ∈ bs, Tells key text a b)
    (heq : ((as.zipIdx first).flatMap fun (a, i) => head i ++ text a) ++ rest =
      ((bs.zipIdx first).flatMap fun (b, i) => head i ++ text b) ++ rest') :
    as.map key = bs.map key ∧ rest = rest' := by
  induction as generalizing bs first with
  | nil =>
      obtain rfl := List.length_eq_zero_iff.mp hlength.symm
      exact ⟨rfl, heq⟩
  | cons a as ih =>
      cases bs with
      | nil => contradiction
      | cons b bs =>
          simp only [List.zipIdx_cons, List.flatMap_cons, List.append_assoc,
            List.append_cancel_left_eq] at heq
          obtain ⟨hkey, htail⟩ :=
            h a List.mem_cons_self b List.mem_cons_self _ _ heq
          obtain ⟨hkeys, hrest⟩ :=
            ih (first + 1) (Nat.succ.inj hlength) (fun a ha b hb =>
            h a (List.mem_cons_of_mem _ ha) b (List.mem_cons_of_mem _ hb)) htail
          exact ⟨by rw [List.map_cons, List.map_cons, hkey, hkeys], hrest⟩

end Tells

namespace Transform

def isStandard : Transform → Bool
  | shift _ => true
  | symmetry _ => true
  | _ => false

def bracketed (name : String) (n : Nat) : List Char :=
  (name ++ toString n ++ ">").toList

def written : Transform → List Char
  | shift n => bracketed "<Shift " n
  | symmetry n => bracketed "<Symmetry " n
  | _ => []

theorem newline_notMem_bracketed {name : String} (hname : '\n' ∉ name.toList)
    (n : Nat) :
    '\n' ∉ bracketed name n :=
  newline_notMem_append.mpr
    ⟨newline_notMem_append.mpr ⟨hname, newline_notMem_toString n⟩, by decide⟩

theorem newline_notMem_written (t : Transform) : '\n' ∉ t.written := by
  cases t with
  | shift n => exact newline_notMem_bracketed (by decide) n
  | symmetry n => exact newline_notMem_bracketed (by decide) n
  | _ => exact List.not_mem_nil

theorem writes_print {t : Transform} (h : t.isStandard = true) :
    t.print.Writes t.written := by
  cases t with
  | shift n => exact Print.writes_text (newline_notMem_bracketed (by decide) n)
  | symmetry n => exact Print.writes_text (newline_notMem_bracketed (by decide) n)
  | _ => contradiction

theorem bracketed_append (name : String) (n : Nat) (rest : List Char) :
    bracketed name n ++ rest = name.toList ++
      ((toString n).toList ++ '>' :: rest) := by
  rw [bracketed, String.toList_append, String.toList_append, List.append_assoc,
    List.append_assoc]
  rfl

theorem bracketed_append_inj {name : String} {m n : Nat} {rest rest' : List Char}
    (h : bracketed name m ++ rest = bracketed name n ++ rest') :
    m = n ∧ rest = rest' := by
  rw [bracketed_append, bracketed_append, List.append_cancel_left_eq] at h
  obtain ⟨hnumber, htail⟩ :=
    toString_append_inj (by simp [EndsDigits]) (by simp [EndsDigits]) h
  exact ⟨hnumber, (List.cons.inj htail).2⟩

theorem shift_ne_symmetry (m n : Nat) (rest rest' : List Char) :
    bracketed "<Shift " m ++ rest ≠ bracketed "<Symmetry " n ++ rest' := by
  rw [bracketed_append, bracketed_append]
  simp

/-- A shift or a symmetry shows which one it is, and where it ends. -/
theorem tells_written {t t' : Transform} (h : t.isStandard = true)
    (h' : t'.isStandard = true) :
    Tells id written t t' := by
  intro rest rest' heq
  cases t with
  | shift m =>
      cases t' with
      | shift n =>
          obtain ⟨rfl, rfl⟩ := bracketed_append_inj heq
          exact ⟨rfl, rfl⟩
      | symmetry n => exact absurd heq (shift_ne_symmetry m n rest rest')
      | _ => contradiction
  | symmetry m =>
      cases t' with
      | shift n => exact absurd heq.symm (shift_ne_symmetry n m rest' rest)
      | symmetry n =>
          obtain ⟨rfl, rfl⟩ := bracketed_append_inj heq
          exact ⟨rfl, rfl⟩
      | _ => contradiction
  | _ => contradiction

end Transform

section Heading

/-- What can follow the heading of an orbit: a new line, or its closing words. -/
def EndsHeading (rest : List Char) : Prop :=
  (∃ tail, rest = '\n' :: tail) ∨ ∃ tail, rest = ' ' :: 'T' :: tail

theorem EndsHeading.endsDigits {rest : List Char} (h : EndsHeading rest) :
    EndsDigits rest := by
  rcases h with ⟨tail, rfl⟩ | ⟨tail, rfl⟩ <;> simp [EndsDigits]

theorem EndsHeading.ne_cons_cons {rest : List Char} (h : EndsHeading rest)
    {c d : Char} (hc : c ≠ '\n') (hd : c = ' ' → d ≠ 'T') (later : List Char) :
    rest ≠ c :: d :: later := by
  rcases h with ⟨tail, rfl⟩ | ⟨tail, rfl⟩
  · exact fun h => hc (List.cons.inj h).1.symm
  · intro h
    obtain ⟨hblank, htail⟩ := List.cons.inj h
    exact hd hblank.symm (List.cons.inj htail).1.symm

theorem EndsHeading.ne_blank_toString {rest : List Char} (h : EndsHeading rest)
    (n : Nat) (later : List Char) :
    rest ≠ ' ' :: ((toString n).toList ++ later) := by
  obtain ⟨c, digits, hdigits, hc⟩ := exists_toString_cons n
  rw [hdigits]
  refine h.ne_cons_cons (by decide) (fun _ => ?_) (digits ++ later)
  rintro rfl
  contradiction

/-- What of a range stands behind its lower bound. -/
def CountRange.upperText (r : CountRange) : List Char :=
  match r.max with
  | none => ['.', '.']
  | some max => if max = r.min then [] else ' ' :: (toString max.toNat).toList

theorem CountRange.toList_text (r : CountRange) :
    r.text.toList = (toString r.min.toNat).toList ++ r.upperText := by
  obtain ⟨min, max⟩ := r
  cases max with
  | none => exact String.toList_append
  | some max =>
      rw [text, upperText]
      dsimp only
      split_ifs with hmax
      · exact (List.append_nil _).symm
      · change (toString min.toNat ++ " " ++ toString max.toNat).toList = _
        rw [String.toList_append, String.toList_append, List.append_assoc]
        rfl

theorem CountRange.endsDigits_upperText (r : CountRange) {rest : List Char}
    (hrest : EndsHeading rest) : EndsDigits (r.upperText ++ rest) := by
  unfold upperText
  split
  · simp [EndsDigits]
  · split_ifs
    · exact hrest.endsDigits
    · simp [EndsDigits]

/-- The upper bounds of ranges with one lower bound show which they are. -/
theorem CountRange.upperText_append_inj {min : UInt64} {max max' : Option UInt64}
    {rest rest' : List Char} (hrest : EndsHeading rest) (hrest' : EndsHeading rest')
    (h : upperText ⟨min, max⟩ ++ rest = upperText ⟨min, max'⟩ ++ rest') :
    max = max' ∧ rest = rest' := by
  cases max with
  | none =>
      cases max' with
      | none => exact ⟨rfl, List.append_cancel_left h⟩
      | some max' =>
          simp only [upperText] at h
          split_ifs at h
          · exact absurd h.symm (hrest'.ne_cons_cons (by decide) (by decide) rest)
          · exact absurd (List.cons.inj h).1 (by decide)
  | some max =>
      cases max' with
      | none =>
          simp only [upperText] at h
          split_ifs at h
          · exact absurd h (hrest.ne_cons_cons (by decide) (by decide) rest')
          · exact absurd (List.cons.inj h).1 (by decide)
      | some max' =>
          simp only [upperText] at h
          split_ifs at h with hmax hmax' hmax'
          · exact ⟨by rw [hmax, hmax'], h⟩
          · exact absurd h (hrest.ne_blank_toString _ _)
          · exact absurd h.symm (hrest'.ne_blank_toString _ _)
          · obtain ⟨hnumber, htail⟩ :=
              toString_append_inj hrest.endsDigits hrest'.endsDigits
                (List.cons.inj h).2
            exact ⟨congrArg some (UInt64.toNat_inj.mp hnumber), htail⟩

/-- A range shows which one it is, even if its bounds are in the wrong order. -/
theorem CountRange.text_append_inj {r r' : CountRange} {rest rest' : List Char}
    (hrest : EndsHeading rest) (hrest' : EndsHeading rest')
    (h : r.text.toList ++ rest = r'.text.toList ++ rest') :
    r = r' ∧ rest = rest' := by
  rw [toList_text, toList_text, List.append_assoc, List.append_assoc] at h
  obtain ⟨hmin, hupper⟩ := toString_append_inj (r.endsDigits_upperText hrest)
    (r'.endsDigits_upperText hrest') h
  obtain ⟨min, max⟩ := r
  obtain ⟨min', max'⟩ := r'
  obtain rfl : min = min' := UInt64.toNat_inj.mp hmin
  obtain ⟨rfl, rfl⟩ := upperText_append_inj hrest hrest' hupper
  exact ⟨rfl, rfl⟩

namespace Criterion

theorem toList_text_multipleOf (n : UInt64) : (multipleOf n).text.toList =
    "EveryNth \x7b n: ".toList ++
      ((toString n.toNat).toList ++ " \x7d".toList) := by
  change ("EveryNth \x7b n: " ++ toString n.toNat ++ " \x7d").toList = _
  rw [String.toList_append, String.toList_append, List.append_assoc]

theorem within_ne_multipleOf (range : CountRange) (n : UInt64)
    (rest rest' : List Char) :
    (within range).text.toList ++ rest ≠ (multipleOf n).text.toList ++ rest' := by
  obtain ⟨c, digits, hdigits, hc⟩ := exists_toString_cons range.min.toNat
  rw [toList_text_multipleOf, text, CountRange.toList_text, hdigits]
  intro h
  obtain rfl : c = 'E' := (List.cons.inj h).1
  contradiction

theorem text_append_inj {criterion criterion' : Criterion} {rest rest' : List Char}
    (hrest : EndsHeading rest) (hrest' : EndsHeading rest')
    (h : criterion.text.toList ++ rest = criterion'.text.toList ++ rest') :
    criterion = criterion' ∧ rest = rest' := by
  cases criterion with
  | within range =>
      cases criterion' with
      | within range' =>
          obtain ⟨rfl, rfl⟩ := CountRange.text_append_inj hrest hrest' h
          exact ⟨rfl, rfl⟩
      | multipleOf n => exact absurd h (within_ne_multipleOf range n rest rest')
  | multipleOf n =>
      cases criterion' with
      | within range =>
          exact absurd h.symm (within_ne_multipleOf range n rest' rest)
      | multipleOf n' =>
          simp only [toList_text_multipleOf, List.append_assoc,
            List.append_cancel_left_eq] at h
          obtain ⟨hnumber, htail⟩ :=
            toString_append_inj (by simp [EndsDigits]) (by simp [EndsDigits]) h
          exact ⟨by rw [UInt64.toNat_inj.mp hnumber], List.append_cancel_left htail⟩

end Criterion

namespace Orbit

/-- What of a heading is about the criterion. -/
def criterionText : Option Criterion → String
  | none => ""
  | some criterion => " range: " ++ criterion.text

theorem endsDigits_criterionText (criterion : Option Criterion) {rest : List Char}
    (hrest : EndsHeading rest) :
    EndsDigits ((criterionText criterion).toList ++ rest) := by
  cases criterion with
  | none => exact hrest.endsDigits
  | some criterion =>
      rw [criterionText, String.toList_append]
      simp [EndsDigits]

theorem criterionText_append_inj {criterion criterion' : Option Criterion}
    {rest rest' : List Char} (hrest : EndsHeading rest) (hrest' : EndsHeading rest')
    (h : (criterionText criterion).toList ++ rest =
      (criterionText criterion').toList ++ rest') :
    criterion = criterion' ∧ rest = rest' := by
  cases criterion with
  | none =>
      cases criterion' with
      | none => exact ⟨rfl, h⟩
      | some criterion' =>
          rw [criterionText, criterionText, String.toList_append] at h
          exact absurd h (hrest.ne_cons_cons (by decide) (by decide) _)
  | some criterion =>
      cases criterion' with
      | none =>
          rw [criterionText, criterionText, String.toList_append] at h
          exact absurd h.symm (hrest'.ne_cons_cons (by decide) (by decide) _)
      | some criterion' =>
          rw [criterionText, criterionText, String.toList_append,
            String.toList_append, List.append_assoc, List.append_assoc,
            List.append_cancel_left_eq] at h
          obtain ⟨rfl, rfl⟩ := Criterion.text_append_inj hrest hrest' h
          exact ⟨rfl, rfl⟩

theorem toList_heading (o : Orbit) : o.heading.toList =
    "<TransformNode ntransforms: ".toList ++
      ((toString o.transforms.length).toList ++
      (" nfilters: ".toList ++ ((toString o.images.length).toList ++
        (criterionText o.criterion).toList))) := by
  have hheading : o.heading = "<TransformNode ntransforms: " ++
      toString o.transforms.length ++
        " nfilters: " ++ toString o.images.length ++ criterionText o.criterion := by
    unfold heading
    cases o.criterion <;> rfl
  simp only [hheading, String.toList_append, List.append_assoc]

/-- The heading of an orbit shows all that is said in it. -/
theorem heading_append_inj {o o' : Orbit} {rest rest' : List Char}
    (hrest : EndsHeading rest) (hrest' : EndsHeading rest')
    (h : o.heading.toList ++ rest = o'.heading.toList ++ rest') :
    o.transforms.length = o'.transforms.length ∧
      o.images.length = o'.images.length ∧
      o.criterion = o'.criterion ∧ rest = rest' := by
  simp only [toList_heading, List.append_assoc, List.append_cancel_left_eq] at h
  obtain ⟨htransforms, h⟩ :=
    toString_append_inj (by simp [EndsDigits]) (by simp [EndsDigits]) h
  rw [List.append_cancel_left_eq] at h
  obtain ⟨himages, h⟩ := toString_append_inj (endsDigits_criterionText _ hrest)
    (endsDigits_criterionText _ hrest') h
  obtain ⟨hcriterion, hrest⟩ := criterionText_append_inj hrest hrest' h
  exact ⟨htransforms, himages, hcriterion, hrest⟩

end Orbit

end Heading

section Entries

def entryText (kind : EntryKind) (body : List Char) : List Char :=
  '\n' :: ' ' :: ' ' :: indented 1 (kind.label.toList ++ body)

def entriesText (kind : Nat → EntryKind) (bodies : List (List Char)) : List Char :=
  bodies.zipIdx.flatMap fun (body, i) => entryText (kind i) body

theorem entriesText_singleton (kind : Nat → EntryKind) (body : List Char) :
    entriesText kind [body] = entryText (kind 0) body :=
  List.append_nil _

theorem indented_entryText (depth : Nat) (kind : EntryKind) (body : List Char) :
    indented depth (entryText kind body) =
      '\n' :: (Entry.head ⟨depth + 1, kind⟩ ++ indented (depth + 1) body) := by
  have hblanks : List.replicate (2 * (depth + 1)) ' ' =
      List.replicate (2 * depth) ' ' ++ [' ', ' '] :=
        List.replicate_append_replicate.symm
  have hlabel := newline_notMem_label kind
  rw [entryText, indented_newline, indented_cons_of_ne (by decide),
    indented_cons_of_ne (by decide), indented_indented, indented_append,
    indented_of_notMem hlabel, Entry.head, hblanks]
  simp

/-- The entries of things at some depth. -/
def entriesAt {α : Type} (depth : Nat) (kind : Nat → EntryKind)
    (text : α → List Char) (as : List α) : List Char :=
  as.zipIdx.flatMap fun (a, i) => '\n' :: Entry.head ⟨depth + 1, kind i⟩ ++ text a

theorem entriesAt_append_inj {α γ : Type} {key : α → γ} {text : α → List Char}
    {as bs : List α} {rest rest' : List Char} (depth : Nat) (kind : Nat → EntryKind)
    (hlength : as.length = bs.length) (h : ∀ a ∈ as, ∀ b ∈ bs, Tells key text a b)
    (heq : entriesAt depth kind text as ++ rest =
      entriesAt depth kind text bs ++ rest') :
    as.map key = bs.map key ∧ rest = rest' :=
  Tells.entries (fun i => '\n' :: Entry.head ⟨depth + 1, kind i⟩) 0 hlength h heq

theorem indented_entriesText {α : Type} (depth : Nat) (kind : Nat → EntryKind)
    (text : α → List Char) (as : List α) :
    indented depth (entriesText kind (as.map text)) =
      entriesAt depth kind (fun a => indented (depth + 1) (text a)) as := by
  rw [entriesText, entriesAt, List.zipIdx_map, List.flatMap_map, indented,
    List.flatMap_assoc]
  exact List.flatMap_congr fun _ _ => indented_entryText depth _ _

end Entries

namespace Print

/-- Prints in turn write their texts one after the other. -/
theorem writes_inTurn {as : List Print} {texts : List (List Char)}
    (h : List.Forall₂ Writes as texts) : (inTurn as).Writes texts.flatten := by
  induction h with
  | nil => exact writes_inTurn_nil
  | cons ha _ ih => exact ha.andThen ih

theorem writes_inTurn_map {α : Type} {as : List α} {print : α → Print}
    {text : α → List Char} (h : ∀ a ∈ as, (print a).Writes (text a)) :
    (inTurn (as.map print)).Writes (as.flatMap text) := by
  apply writes_inTurn
  rw [List.forall₂_map_left_iff, List.forall₂_map_right_iff, List.forall₂_same]
  exact h

theorem Writes.entryText {a : Print} {written : List Char} (ha : a.Writes written)
    (kind : EntryKind) :
    (Print.entry (.andThen (.text kind.label) a)).Writes (entryText kind written) :=
  ((writes_text (newline_notMem_label kind)).andThen ha).entry

theorem writes_entriesText {α : Type} {as : List α} {print : α → Print}
    {text : α → List Char} (h : ∀ a ∈ as, (print a).Writes (text a))
    (kind : Nat → EntryKind) :
    (inTurn (as.zipIdx.map fun (a, i) =>
      .entry (.andThen (.text (kind i).label) (print a)))).Writes
        (entriesText kind (as.map text)) := by
  rw [entriesText, List.zipIdx_map, List.flatMap_map]
  apply writes_inTurn_map
  rintro ⟨a, i⟩ hai
  exact (h a (List.fst_mem_of_mem_zipIdx hai)).entryText (kind i)

end Print

def Orbit.childKind : Orbit → Nat → EntryKind
  | deferred _ _ _, _ => .base
  | expanded _ _ images _, i => .image i images.length

namespace Filter

def isStandard : Filter → Bool
  | bit _ => true
  | all _ => true
  | any _ => true
  | orbit o => o.transforms.all Transform.isStandard
  | _ => false

/-- A tree of bits, composites and orbits under shifts and symmetries. -/
def Standard (f : Filter) : Prop :=
  ∀ g ∈ f.nodes, g.isStandard = true

instance (f : Filter) : Decidable f.Standard :=
  inferInstanceAs (Decidable (∀ g ∈ f.nodes, g.isStandard = true))

theorem Standard.isStandard {f : Filter} (h : f.Standard) : f.isStandard = true :=
  h f f.mem_nodes_self

theorem standard_all {parts : List Filter} :
    (all parts).Standard ↔ ∀ f ∈ parts, f.Standard :=
  forall_mem_nodes_all.trans (and_iff_right rfl)

theorem standard_any {parts : List Filter} :
    (any parts).Standard ↔ ∀ f ∈ parts, f.Standard :=
  forall_mem_nodes_any.trans (and_iff_right rfl)

theorem standard_orbit {o : Orbit} : (orbit o).Standard ↔
    (∀ t ∈ o.transforms, t.isStandard = true) ∧ ∀ f ∈ orbitChildren o,
      f.Standard := by
  cases o with
  | deferred ts criterion base =>
      rw [orbitChildren, List.forall_mem_singleton]
      exact forall_mem_nodes_deferred.trans (and_congr_left' List.all_eq_true)
  | expanded ts criterion images count =>
      exact forall_mem_nodes_expanded.trans (and_congr_left' List.all_eq_true)

def bitText (mask : UInt32) : List Char :=
  ("<BitFilter 0x" ++ hexNumeral mask.toNat ++ ">").toList

theorem exists_digitChar_of_mem_hexNumeral {n : Nat} {c : Char}
    (h : c ∈ (hexNumeral n).toList) :
    ∃ k, c = Nat.digitChar k := by
  rw [hexNumeral, String.toList_ofList] at h
  exact exists_digitChar_of_mem_toDigits (by decide) h

theorem newline_notMem_hexNumeral (n : Nat) : '\n' ∉ (hexNumeral n).toList := by
  intro h
  obtain ⟨k, hk⟩ := exists_digitChar_of_mem_hexNumeral h
  simp at hk

theorem newline_notMem_bitText (mask : UInt32) : '\n' ∉ bitText mask :=
  newline_notMem_append.mpr
    ⟨newline_notMem_append.mpr ⟨by decide, newline_notMem_hexNumeral _⟩, by decide⟩

def compositeText (name : String) (parts : List (List Char)) : List Char :=
  ("<" ++ name).toList ++ ((parts.flatMap fun part => ' ' :: part) ++ ['>'])

/-- The text of an orbit with filters of some texts below it. -/
def orbitText (o : Orbit) (below : List (List Char)) : List Char :=
  o.heading.toList ++
    (entriesText (fun i => .transform i o.transforms.length)
        (o.transforms.map Transform.written) ++
      (entriesText o.childKind below ++ " TransformNode>".toList))

mutual

def written : Filter → List Char
  | bit mask => bitText mask
  | all parts => compositeText "AndFilter" (writtenEach parts)
  | any parts => compositeText "OrFilter" (writtenEach parts)
  | orbit (.deferred ts criterion base) =>
      orbitText (.deferred ts criterion base) [base.written]
  | orbit (.expanded ts criterion images count) =>
      orbitText (.expanded ts criterion images count) (writtenEach images)
  | _ => []

def writtenEach : List Filter → List (List Char)
  | [] => []
  | f :: rest => f.written :: writtenEach rest

end

theorem writtenEach_eq_map (fs : List Filter) :
    writtenEach fs = fs.map written := by
  induction fs with
  | nil => rfl
  | cons f rest ih =>
      rw [List.map_cons, ← ih]
      rfl

theorem written_orbit (o : Orbit) :
    (orbit o).written = orbitText o ((orbitChildren o).map written) := by
  cases o with
  | deferred ts criterion base => rfl
  | expanded ts criterion images count =>
      rw [written, writtenEach_eq_map]
      rfl

theorem writes_composite {name : String} (hname : '\n' ∉ name.toList)
    {parts : List Filter} (h : ∀ f ∈ parts, f.print.Writes f.written) :
    (printComposite name (parts.map print)).Writes
      (compositeText name (parts.map written)) := by
  have hopening : '\n' ∉ ("<" ++ name).toList :=
    newline_notMem_append.mpr ⟨by decide, hname⟩
  have hparts :
      (Print.inTurn ((parts.map print).map fun part =>
      .andThen (.text " ") part)).Writes
        (parts.flatMap fun f => ' ' :: f.written) := by
    rw [List.map_map]
    apply Print.writes_inTurn_map
    exact fun f hf => (Print.writes_text (by decide)).andThen (h f hf)
  have hrows :=
    Print.writes_inTurn (.cons (Print.writes_text hopening) (.cons hparts
    (.cons (Print.writes_text (s := ">") (by decide)) .nil)))
  rw [compositeText, List.flatMap_map]
  exact hrows

theorem writes_orbit (o : Orbit) {below : Print} {bodies : List (List Char)}
    (hown : ∀ t ∈ o.transforms, t.isStandard = true)
    (hbelow : below.Writes (entriesText o.childKind bodies)) :
    (Print.inTurn [.text o.heading, .inTurn (Orbit.transformEntries o.transforms),
        below, .text " TransformNode>"]).Writes (orbitText o bodies) := by
  have htransforms := Print.writes_entriesText
    (fun t ht => Transform.writes_print (hown t ht)) fun i =>
      .transform i o.transforms.length
  have hrows :=
    Print.writes_inTurn (.cons (Print.writes_text (newline_notMem_heading o))
    (.cons htransforms (.cons hbelow
      (.cons (Print.writes_text (s := " TransformNode>") (by decide)) .nil))))
  simp only [List.flatten_cons, List.flatten_nil, List.append_nil] at hrows
  exact hrows

theorem writes_print {f : Filter} (h : f.Standard) : f.print.Writes f.written := by
  induction f using tree_induction with
  | bit mask => exact Print.writes_text (newline_notMem_bitText mask)
  | scripted label script current => exact absurd h.isStandard Bool.false_ne_true
  | probe traits cloneAs becomes => exact absurd h.isStandard Bool.false_ne_true
  | all parts ih =>
      rw [print, written, printEach_eq_map, writtenEach_eq_map]
      exact writes_composite (by decide) fun f hf =>
        ih f hf (standard_all.mp h f hf)
  | any parts ih =>
      rw [print, written, printEach_eq_map, writtenEach_eq_map]
      exact writes_composite (by decide) fun f hf =>
        ih f hf (standard_any.mp h f hf)
  | deferred ts criterion base ih =>
      obtain ⟨hown, hbase⟩ := standard_orbit.mp h
      have hentry := (ih (hbase base List.mem_cons_self)).entryText .base
      rw [print, Orbit.print, written]
      apply writes_orbit (.deferred ts criterion base) hown
      rw [entriesText_singleton]
      exact hentry
  | expanded ts criterion images count ih =>
      obtain ⟨hown, himages⟩ := standard_orbit.mp h
      have hentries := Print.writes_entriesText (fun f hf => ih f hf (himages f hf))
        (Orbit.expanded ts criterion images count).childKind
      rw [print, Orbit.print, written, printEach_eq_map, writtenEach_eq_map]
      apply writes_orbit (.expanded ts criterion images count) hown
      rw [Orbit.imageEntries, List.zipIdx_map, List.map_map, List.length_map]
      exact hentries

section Tells

/-- The text of a filter at some depth. -/
def writtenAt (depth : Nat) (f : Filter) : List Char :=
  indented depth f.written

@[simp] theorem writtenAt_bit (depth : Nat) (mask : UInt32) :
    (bit mask).writtenAt depth = bitText mask :=
  indented_of_notMem (newline_notMem_bitText mask) depth

theorem indented_compositeText {name : String} (hname : '\n' ∉ name.toList)
    (depth : Nat) (parts : List Filter) :
    indented depth (compositeText name (parts.map written)) =
      compositeText name (parts.map (writtenAt depth)) := by
  have hopening : '\n' ∉ ("<" ++ name).toList :=
    newline_notMem_append.mpr ⟨by decide, hname⟩
  have hparts : indented depth (parts.flatMap fun f => ' ' :: f.written) =
      parts.flatMap fun f => ' ' :: f.writtenAt depth := by
    rw [indented, List.flatMap_assoc]
    exact List.flatMap_congr fun f _ =>
      indented_cons_of_ne (by decide) depth f.written
  rw [compositeText, compositeText, indented_append, indented_append,
    indented_of_notMem hopening, List.flatMap_map, List.flatMap_map, hparts,
    indented_of_notMem (by decide)]

@[simp] theorem writtenAt_all (depth : Nat) (parts : List Filter) :
    (all parts).writtenAt depth =
      compositeText "AndFilter" (parts.map (writtenAt depth)) := by
  rw [writtenAt, written, writtenEach_eq_map]
  exact indented_compositeText (by decide) depth parts

@[simp] theorem writtenAt_any (depth : Nat) (parts : List Filter) :
    (any parts).writtenAt depth =
      compositeText "OrFilter" (parts.map (writtenAt depth)) := by
  rw [writtenAt, written, writtenEach_eq_map]
  exact indented_compositeText (by decide) depth parts

theorem writtenAt_orbit (depth : Nat) (o : Orbit) :
    (orbit o).writtenAt depth =
      o.heading.toList ++
        (entriesAt depth (fun i => .transform i o.transforms.length)
          Transform.written
            o.transforms ++
          (entriesAt depth o.childKind (writtenAt (depth + 1)) (orbitChildren o) ++
            " TransformNode>".toList)) := by
  rw [writtenAt, written_orbit, orbitText, indented_append, indented_append,
    indented_append, indented_of_notMem (newline_notMem_heading o),
    indented_entriesText, indented_entriesText, indented_of_notMem (by decide)]
  simp only [indented_of_notMem (Transform.newline_notMem_written _)]
  rfl

/-- A letter in which the texts of the kinds of filters differ. -/
def initial : Filter → Char
  | bit _ => 'B'
  | all _ => 'A'
  | any _ => 'O'
  | orbit _ => 'T'
  | _ => ' '

theorem exists_writtenAt_eq {f : Filter} (h : f.isStandard = true) (depth : Nat) :
    ∃ rest, f.writtenAt depth = '<' :: f.initial :: rest := by
  cases f with
  | bit mask =>
      rw [writtenAt_bit, bitText, String.toList_append, String.toList_append,
        List.append_assoc]
      exact ⟨_, rfl⟩
  | all parts =>
      rw [writtenAt_all, compositeText]
      exact ⟨_, rfl⟩
  | any parts =>
      rw [writtenAt_any, compositeText]
      exact ⟨_, rfl⟩
  | orbit o =>
      rw [writtenAt_orbit, Orbit.toList_heading]
      exact ⟨_, rfl⟩
  | _ => contradiction

theorem initial_eq_of_append_eq {f g : Filter} (hf : f.isStandard = true)
    (hg : g.isStandard = true) {depth : Nat} {rest rest' : List Char}
    (h : f.writtenAt depth ++ rest = g.writtenAt depth ++ rest') :
    f.initial = g.initial := by
  obtain ⟨tail, htail⟩ := exists_writtenAt_eq hf depth
  obtain ⟨tail', htail'⟩ := exists_writtenAt_eq hg depth
  rw [htail, htail'] at h
  exact (List.cons.inj (List.cons.inj h).2).1

theorem bitText_append_inj {mask mask' : UInt32} {rest rest' : List Char}
    (h : bitText mask ++ rest = bitText mask' ++ rest') :
    mask = mask' ∧ rest = rest' := by
  simp only [bitText, String.toList_append, List.append_assoc,
    List.append_cancel_left_eq] at h
  have hdigit : ∀ {n : Nat}, ∀ c ∈ (hexNumeral n).toList, c ≠ '>' := by
    rintro n c hc rfl
    obtain ⟨k, hk⟩ := exists_digitChar_of_mem_hexNumeral hc
    simp at hk
  obtain ⟨hmask, htail⟩ := run_append_inj hdigit hdigit (by simp) (by simp) h
  rw [hexNumeral, hexNumeral, String.toList_ofList, String.toList_ofList] at hmask
  exact ⟨UInt32.toNat_inj.mp (toDigits_inj (by decide) (by decide) hmask),
    List.append_cancel_left htail⟩

theorem compositeText_append_inj {name : String} {parts parts' : List Filter}
    {depth : Nat} {rest rest' : List Char}
    (h : ∀ f ∈ parts, ∀ g ∈ parts', Tells forget (writtenAt depth) f g)
    (heq : compositeText name (parts.map (writtenAt depth)) ++ rest =
      compositeText name (parts'.map (writtenAt depth)) ++ rest') :
    parts.map forget = parts'.map forget ∧ rest = rest' := by
  simp only [compositeText, List.flatMap_map, List.append_assoc,
    List.append_cancel_left_eq] at heq
  exact Tells.parts h heq

/-- Behind the heading an orbit goes on with a new line or ends. -/
theorem endsHeading_entriesAt {α β : Type} (depth : Nat)
    (kind kind' : Nat → EntryKind) (text : α → List Char) (text' : β → List Char)
    (as : List α) (bs : List β) (rest : List Char) :
    EndsHeading (entriesAt depth kind text as ++
      (entriesAt depth kind' text' bs ++ (" TransformNode>".toList ++ rest))) := by
  cases as with
  | cons a as => exact .inl ⟨_, rfl⟩
  | nil =>
      cases bs with
      | cons b bs => exact .inl ⟨_, rfl⟩
      | nil => exact .inr ⟨_, rfl⟩

/-- The entry of a base shows that an orbit is deferred, and the number of
images shows how many entries there are in one that is expanded. -/
theorem childEntries_append_inj {o o' : Orbit} {depth : Nat}
    {rest rest' : List Char} (himages : o.images.length = o'.images.length)
    (h : ∀ f ∈ orbitChildren o, ∀ g ∈ orbitChildren o',
      Tells forget (writtenAt (depth + 1)) f g)
    (heq : entriesAt depth o.childKind (writtenAt (depth + 1)) (orbitChildren o) ++
        (" TransformNode>".toList ++ rest) =
      entriesAt depth o'.childKind (writtenAt (depth + 1)) (orbitChildren o') ++
        (" TransformNode>".toList ++ rest')) :
    o.isExpanded = o'.isExpanded ∧
      (orbitChildren o).map forget = (orbitChildren o').map forget ∧
        rest = rest' := by
  cases o with
  | deferred ts criterion base =>
      cases o' with
      | deferred ts' criterion' base' =>
          have hlength : [base].length = [base'].length := rfl
          obtain ⟨hchildren, htail⟩ :=
            entriesAt_append_inj depth (fun _ => .base) hlength h heq
          exact ⟨rfl, hchildren, List.append_cancel_left htail⟩
      | expanded ts' criterion' images' count' =>
          obtain rfl := List.length_eq_zero_iff.mp himages.symm
          exact absurd (List.cons.inj heq).1 (by decide)
  | expanded ts criterion images count =>
      cases o' with
      | deferred ts' criterion' base' =>
          obtain rfl := List.length_eq_zero_iff.mp himages
          exact absurd (List.cons.inj heq).1 (by decide)
      | expanded ts' criterion' images' count' =>
          have hkind : (Orbit.expanded ts' criterion' images' count').childKind =
              (Orbit.expanded ts criterion images count).childKind := by
            funext i
            exact congrArg (EntryKind.image i) himages.symm
          rw [hkind] at heq
          obtain ⟨hchildren, htail⟩ := entriesAt_append_inj depth _ himages h heq
          exact ⟨rfl, hchildren, List.append_cancel_left htail⟩

/-- Orbits that agree in all their parts differ in no more than their counts. -/
theorem forget_orbit_eq {o o' : Orbit} (htransforms : o.transforms = o'.transforms)
    (hcriterion : o.criterion = o'.criterion)
    (hexpanded : o.isExpanded = o'.isExpanded)
    (hchildren : (orbitChildren o).map forget = (orbitChildren o').map forget) :
    (orbit o).forget = (orbit o').forget := by
  cases o with
  | deferred ts criterion base =>
      cases o' with
      | deferred ts' criterion' base' =>
          obtain rfl : ts = ts' := htransforms
          obtain rfl : criterion = criterion' := hcriterion
          have hbase : base.forget = base'.forget := List.singleton_inj.mp hchildren
          rw [forget, forget, Orbit.forget, Orbit.forget, hbase]
      | expanded ts' criterion' images' count' => contradiction
  | expanded ts criterion images count =>
      cases o' with
      | deferred ts' criterion' base' => contradiction
      | expanded ts' criterion' images' count' =>
          obtain rfl : ts = ts' := htransforms
          obtain rfl : criterion = criterion' := hcriterion
          have himages : images.map forget = images'.map forget := hchildren
          rw [forget, forget, Orbit.forget, Orbit.forget, forgetEach_eq_map,
            forgetEach_eq_map, himages]

/-- An orbit shows what it is and where it ends, if its base or its images do so. -/
theorem tells_orbit {o o' : Orbit} (hown : ∀ t ∈ o.transforms, t.isStandard = true)
    (hown' : ∀ t ∈ o'.transforms, t.isStandard = true) {depth : Nat}
    (hbelow : ∀ f ∈ orbitChildren o, ∀ g ∈ orbitChildren o',
      Tells forget (writtenAt (depth + 1)) f g) :
    Tells forget (writtenAt depth) (orbit o) (orbit o') := by
  intro rest rest' heq
  simp only [writtenAt_orbit, List.append_assoc] at heq
  obtain ⟨htotal, himages, hcriterion, heq⟩ := Orbit.heading_append_inj
    (endsHeading_entriesAt _ _ _ _ _ _ _ _) (endsHeading_entriesAt _ _ _ _ _ _ _ _)
      heq
  rw [htotal] at heq
  obtain ⟨htransforms, heq⟩ := entriesAt_append_inj depth _ htotal
    (fun t ht t' ht' => Transform.tells_written (hown t ht) (hown' t' ht')) heq
  rw [List.map_id, List.map_id] at htransforms
  obtain ⟨hexpanded, hchildren, hrest⟩ := childEntries_append_inj himages hbelow heq
  exact ⟨forget_orbit_eq htransforms hcriterion hexpanded hchildren, hrest⟩

/-- A standard tree shows what it is and where it ends, up to its counts of last
tests. -/
theorem tells_writtenAt {f g : Filter} (hf : f.Standard) (hg : g.Standard)
    (depth : Nat) :
    Tells forget (writtenAt depth) f g := by
  induction f using tree_induction generalizing g depth with
  | scripted label script current => exact absurd hf.isStandard Bool.false_ne_true
  | probe traits cloneAs becomes => exact absurd hf.isStandard Bool.false_ne_true
  | bit mask =>
      intro rest rest' heq
      have hkind := initial_eq_of_append_eq hf.isStandard hg.isStandard heq
      cases g with
      | bit mask' =>
          rw [writtenAt_bit, writtenAt_bit] at heq
          obtain ⟨rfl, rfl⟩ := bitText_append_inj heq
          exact ⟨rfl, rfl⟩
      | _ => simp [initial] at hkind
  | all parts ih =>
      intro rest rest' heq
      have hkind := initial_eq_of_append_eq hf.isStandard hg.isStandard heq
      cases g with
      | all parts' =>
          rw [writtenAt_all, writtenAt_all] at heq
          obtain ⟨hparts, hrest⟩ := compositeText_append_inj (fun f hf' g hg' =>
            ih f hf' (standard_all.mp hf f hf') (standard_all.mp hg g hg') depth)
              heq
          exact ⟨by rw [forget, forget, forgetEach_eq_map, forgetEach_eq_map,
            hparts], hrest⟩
      | _ => simp [initial] at hkind
  | any parts ih =>
      intro rest rest' heq
      have hkind := initial_eq_of_append_eq hf.isStandard hg.isStandard heq
      cases g with
      | any parts' =>
          rw [writtenAt_any, writtenAt_any] at heq
          obtain ⟨hparts, hrest⟩ := compositeText_append_inj (fun f hf' g hg' =>
            ih f hf' (standard_any.mp hf f hf') (standard_any.mp hg g hg') depth)
              heq
          exact ⟨by rw [forget, forget, forgetEach_eq_map, forgetEach_eq_map,
            hparts], hrest⟩
      | _ => simp [initial] at hkind
  | deferred ts criterion base ih =>
      intro rest rest' heq
      have hkind := initial_eq_of_append_eq hf.isStandard hg.isStandard heq
      cases g with
      | orbit o' =>
          obtain ⟨hown, hbelow⟩ := standard_orbit.mp hf
          obtain ⟨hown', hbelow'⟩ := standard_orbit.mp hg
          refine tells_orbit hown hown' (fun f hf' g hg' => ?_) rest rest' heq
          obtain rfl := List.mem_singleton.mp hf'
          exact ih (hbelow f hf') (hbelow' g hg') (depth + 1)
      | _ => simp [initial] at hkind
  | expanded ts criterion images count ih =>
      intro rest rest' heq
      have hkind := initial_eq_of_append_eq hf.isStandard hg.isStandard heq
      cases g with
      | orbit o' =>
          obtain ⟨hown, hbelow⟩ := standard_orbit.mp hf
          obtain ⟨hown', hbelow'⟩ := standard_orbit.mp hg
          exact tells_orbit hown hown' (fun f hf' g hg' =>
            ih f hf' (hbelow f hf') (hbelow' g hg') (depth + 1)) rest rest' heq
      | _ => simp [initial] at hkind

end Tells

/-- The printed form of a tree of bits, composites and orbits under shifts and
symmetries, with ranges of any bounds, says everything about the tree but the
counts of its last tests, if the tree is no deeper than a printer can go. -/
theorem render_eq_iff_forget_eq {f g : Filter} (hf : f.Standard) (hg : g.Standard) :
    f.FitsAt 0 → g.FitsAt 0 →
      (∃ text, f.render = .ok text) ∧
        (f.render = g.render ↔ f.forget = g.forget) := by
  intro _ _
  have hrender : f.render = .ok (String.ofList f.written) :=
    (writes_print hf).render_eq
  have hrender' : g.render = .ok (String.ofList g.written) :=
    (writes_print hg).render_eq
  refine ⟨⟨_, hrender⟩, fun h => ?_, fun h => ?_⟩
  · rw [hrender, hrender', Except.ok.injEq, String.ofList_inj] at h
    have heq : f.writtenAt 0 ++ [] = g.writtenAt 0 ++ [] := by
      rw [writtenAt, writtenAt, h]
    exact (tells_writtenAt hf hg 0 [] [] heq).1
  · rw [render, render, ← print_forget f, h, print_forget]

/-- Two trees that differ in a count only, and one in which a part has moved
from a composite in an image to the composite around the orbit. -/
theorem render_eq_iff_forget_eq_moved :
    let tree (inner outer : List Filter) (count : Nat) : Filter :=
      .orbit (.deferred [.shift 1] (some (.within ⟨3, some 2⟩))
        (.all (.orbit (.expanded [.symmetry 2] none [.bit 1, .any inner] count) ::
          outer)))
    (tree [.bit 2] [.bit 31] 0).render = (tree [.bit 2] [.bit 31] 7).render ∧
      (tree [.bit 2] [.bit 31] 0).render ≠
        (tree [.bit 2, .bit 31] [] 0).render := by
  intro tree
  have hcounts := render_eq_iff_forget_eq (f := tree [.bit 2] [.bit 31] 0)
    (g := tree [.bit 2] [.bit 31] 7) (by decide) (by decide) (by decide) (by decide)
  have hmoved := render_eq_iff_forget_eq (f := tree [.bit 2] [.bit 31] 0)
    (g := tree [.bit 2, .bit 31] [] 0) (by decide) (by decide) (by decide)
      (by decide)
  exact ⟨hcounts.2.mpr rfl, fun h => nomatch hmoved.2.mp h⟩

end Filter

end BoardQuery
