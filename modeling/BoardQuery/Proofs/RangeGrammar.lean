/-
The grammar of ranges.  The reader of ranges trims a text and cuts it at the
first pair of dots or, failing that, at the first blank.  Here the texts that
denote a range are given as a grammar, and for all others it is said which bound
is at fault and how.
-/
import BoardQuery.Proofs.Numerals
import BoardQuery.Range.Parser
import Mathlib.Data.List.DropRight

namespace BoardQuery

def Blanks (text : List Char) : Prop :=
  ∀ c ∈ text, isBlank c = true

structure Trimmed (text : List Char) : Prop where
  head : ∀ c ∈ text.head?, isBlank c = false
  last : ∀ c ∈ text.getLast?, isBlank c = false

section Trimming

variable {text before after : List Char}

theorem trimBlanks_eq (text : List Char) :
    trimBlanks text = (text.dropWhile isBlank).rdropWhile isBlank := rfl

/-- What is left of a text after trimming has no blank at its ends. -/
theorem trimmed_trimBlanks (text : List Char) : Trimmed (trimBlanks text) := by
  rw [trimBlanks_eq]
  refine ⟨fun c hc => ?_, fun c hc => ?_⟩
  · obtain ⟨rest, hrest⟩ := List.head?_eq_some_iff.mp hc
    obtain ⟨tail, htail⟩ : (text.dropWhile isBlank).rdropWhile isBlank <+:
      text.dropWhile isBlank :=
      List.rdropWhile_prefix isBlank _
    rw [hrest, List.cons_append] at htail
    simpa [← htail] using List.head_dropWhile_not isBlank (l := text)
      (by simp [← htail])
  · obtain ⟨hne, rfl⟩ := List.mem_getLast?_eq_getLast hc
    simpa using List.rdropWhile_last_not isBlank _ hne

theorem exists_trimBlanks (text : List Char) :
    ∃ before after, Blanks before ∧ Blanks after ∧
      text = before ++ trimBlanks text ++ after := by
  refine ⟨text.takeWhile isBlank, (text.dropWhile isBlank).rtakeWhile isBlank,
    fun c => List.mem_takeWhile_imp, fun c => List.mem_rtakeWhile_imp, ?_⟩
  rw [trimBlanks_eq, List.append_assoc, List.rdropWhile_append_rtakeWhile,
    List.takeWhile_append_dropWhile]

/-- Blanks around a text without blanks at its ends are all that trimming takes
off. -/
theorem trimBlanks_append (hbefore : Blanks before) (htext : Trimmed text)
    (hafter : Blanks after) : trimBlanks (before ++ text ++ after) = text := by
  have hback : ∀ l : List Char, (l ++ after).rdropWhile isBlank =
      l.rdropWhile isBlank := by
    intro l
    have hafter' : Blanks after.reverse :=
      fun c hc => hafter c (List.mem_reverse.mp hc)
    rw [List.rdropWhile, List.rdropWhile, List.reverse_append,
      List.dropWhile_append_of_pos hafter']
  rw [trimBlanks_eq, List.append_assoc, List.dropWhile_append_of_pos hbefore]
  cases text with
  | nil =>
      rw [List.nil_append, List.dropWhile_eq_nil_iff.mpr hafter,
        List.rdropWhile_nil]
  | cons c rest =>
      rw [List.cons_append, List.dropWhile_cons_of_neg (by simp [htext.head c rfl]),
        ← List.cons_append, hback, List.rdropWhile_eq_self_iff]
      intro hne
      simp [htext.last _ (List.getLast_mem_getLast? hne)]

/-- At the start of a text without blanks at its ends there is nothing to trim. -/
theorem Trimmed.exists_after (h : Trimmed (text ++ after)) :
    ∃ gap, Blanks gap ∧ trimBlanks text ++ gap = text := by
  obtain ⟨before, gap, hbefore, hgap, htext⟩ := exists_trimBlanks text
  cases before with
  | nil => exact ⟨gap, hgap, htext.symm⟩
  | cons c rest =>
      have hc := h.head c (by rw [htext]; simp)
      rw [hbefore c List.mem_cons_self] at hc
      contradiction

theorem Trimmed.exists_before (h : Trimmed (before ++ text)) :
    ∃ gap, Blanks gap ∧ gap ++ trimBlanks text = text := by
  obtain ⟨gap, after, hgap, hafter, htext⟩ := exists_trimBlanks text
  rcases List.eq_nil_or_concat after with rfl | ⟨rest, c, rfl⟩
  · exact ⟨gap, hgap, by rw [← List.append_nil (gap ++ _), ← htext]⟩
  · have hc := h.last c (by rw [htext]; simp)
    rw [hafter c (by simp)] at hc
    contradiction

theorem blanks_nil : Blanks [] :=
  fun _ hc => absurd hc List.not_mem_nil

theorem trimBlanks_append_left (hbefore : Blanks before) (htext : Trimmed text) :
    trimBlanks (before ++ text) = text := by
  simpa using trimBlanks_append hbefore htext blanks_nil

theorem trimBlanks_append_right (htext : Trimmed text) (hafter : Blanks after) :
    trimBlanks (text ++ after) = text := by
  simpa using trimBlanks_append blanks_nil htext hafter

theorem trimBlanks_of_trimmed (h : Trimmed text) : trimBlanks text = text := by
  simpa using trimBlanks_append_right h blanks_nil

theorem trimBlanks_eq_nil_iff : trimBlanks text = [] ↔ Blanks text := by
  constructor
  · intro h
    obtain ⟨before, after, hbefore, hafter, htext⟩ := exists_trimBlanks text
    rw [h, List.append_nil] at htext
    rw [htext]
    exact fun c hc => (List.mem_append.mp hc).elim (hbefore c) (hafter c)
  · intro h
    have hnil : Trimmed [] := ⟨nofun, nofun⟩
    simpa using trimBlanks_append_left h hnil

theorem trimmed_of_forall (h : ∀ c ∈ text, isBlank c = false) : Trimmed text :=
  ⟨fun c hc => h c (List.mem_of_mem_head? hc),
    fun c hc => h c (List.mem_of_mem_getLast? hc)⟩

theorem Trimmed.append (hbefore : Trimmed before)
    (hafter : Trimmed after) (hne : before ≠ []) (hne' : after ≠ [])
    (between : List Char) :
    Trimmed (before ++ between ++ after) := by
  constructor
  · intro c hc
    rw [List.append_assoc, List.head?_append_of_ne_nil _ hne] at hc
    exact hbefore.head c hc
  · intro c hc
    rw [List.getLast?_append_of_ne_nil _ hne'] at hc
    exact hafter.last c hc

end Trimming

def HasDots (text : List Char) : Prop :=
  ['.', '.'] <:+: text

section Cutting

variable {text low high : List Char}

theorem hasDots_cons {c : Char} :
    HasDots (c :: text) ↔ (c = '.' ∧ text.head? = some '.') ∨ HasDots text := by
  rw [HasDots, List.infix_cons_iff, List.cons_prefix_cons, HasDots]
  refine or_congr_left (and_congr eq_comm ?_)
  cases text <;> simp [eq_comm]

/-- A character that does not start a pair of dots is passed over. -/
theorem cutAtDots_cons {c : Char} (h : ¬ (c = '.' ∧ text.head? = some '.')) :
    cutAtDots (c :: text) =
      (cutAtDots text).map fun (before, after) => (c :: before, after) := by
  rw [cutAtDots]
  rintro rest rfl rfl
  exact h ⟨rfl, rfl⟩

theorem cutAtDots_append (h : ¬ HasDots (low ++ ['.'])) :
    cutAtDots (low ++ '.' :: '.' :: high) = some (low, high) := by
  induction low with
  | nil => rfl
  | cons c low ih =>
      rw [List.cons_append, hasDots_cons, not_or] at h
      obtain ⟨hfirst, hrest⟩ := h
      have hhead : (low ++ '.' :: '.' :: high).head? = (low ++ ['.']).head? := by
        cases low <;> rfl
      rw [List.cons_append, cutAtDots_cons (hhead ▸ hfirst), ih hrest]
      rfl

theorem cutAtDots_eq_some (h : cutAtDots text = some (low, high)) :
    text = low ++ '.' :: '.' :: high ∧ ¬ HasDots (low ++ ['.']) := by
  induction text generalizing low with
  | nil => simp [cutAtDots] at h
  | cons c rest ih =>
      by_cases hdots : c = '.' ∧ rest.head? = some '.'
      · obtain ⟨rfl, hrest⟩ := hdots
        obtain ⟨tail, rfl⟩ := List.head?_eq_some_iff.mp hrest
        obtain ⟨rfl, rfl⟩ : [] = low ∧ tail = high := by simpa [cutAtDots] using h
        exact ⟨rfl, show ¬ ['.', '.'] <:+: ['.'] by decide⟩
      · rw [cutAtDots_cons hdots, Option.map_eq_some_iff] at h
        obtain ⟨⟨before, after⟩, hcut, heq⟩ := h
        obtain ⟨rfl, rfl⟩ := Prod.mk.inj heq
        obtain ⟨rfl, hfirst⟩ := ih hcut
        refine ⟨rfl, ?_⟩
        have hhead : (before ++ '.' :: '.' :: after).head? =
            (before ++ ['.']).head? := by
          cases before <;> rfl
        rw [List.cons_append, hasDots_cons, not_or]
        exact ⟨hhead ▸ hdots, hfirst⟩

theorem cutAtDots_eq_none_iff : cutAtDots text = none ↔ ¬ HasDots text := by
  induction text with
  | nil => simp [cutAtDots, HasDots]
  | cons c rest ih =>
      by_cases hdots : c = '.' ∧ rest.head? = some '.'
      · obtain ⟨rfl, hrest⟩ := hdots
        obtain ⟨tail, rfl⟩ := List.head?_eq_some_iff.mp hrest
        simp [cutAtDots, hasDots_cons]
      · rw [cutAtDots_cons hdots, Option.map_eq_none_iff, ih, hasDots_cons,
          or_iff_right hdots]

theorem cutAtBlank_append {c : Char} (hlow : ∀ d ∈ low, isBlank d = false)
    (hc : isBlank c = true) : cutAtBlank (low ++ c :: high) = some (low, high) := by
  induction low with
  | nil => simp [cutAtBlank, hc]
  | cons d low ih =>
      obtain ⟨hd, hlow⟩ := List.forall_mem_cons.mp hlow
      simp [cutAtBlank, hd, ih hlow]

theorem cutAtBlank_eq_some (h : cutAtBlank text = some (low, high)) :
    ∃ c, text = low ++ c :: high ∧ isBlank c = true ∧ ∀ d ∈ low,
      isBlank d = false := by
  induction text generalizing low with
  | nil => simp [cutAtBlank] at h
  | cons c rest ih =>
      cases hc : isBlank c with
      | true =>
          obtain ⟨rfl, rfl⟩ : [] = low ∧ rest = high := by
            simpa [cutAtBlank, hc] using h
          exact ⟨c, rfl, hc, by simp⟩
      | false =>
          simp only [cutAtBlank, hc, Bool.false_eq_true, ↓reduceIte,
            Option.map_eq_some_iff] at h
          obtain ⟨⟨before, after⟩, hcut, heq⟩ := h
          obtain ⟨rfl, rfl⟩ := Prod.mk.inj heq
          obtain ⟨b, rfl, hb, hbefore⟩ := ih hcut
          exact ⟨b, rfl, hb, List.forall_mem_cons.mpr ⟨hc, hbefore⟩⟩

theorem cutAtBlank_eq_none_iff : cutAtBlank text = none ↔
    ∀ c ∈ text, isBlank c = false := by
  induction text with
  | nil => simp [cutAtBlank]
  | cons c rest ih => cases hc : isBlank c <;> simp [cutAtBlank, hc, ih]

end Cutting

theorem isBlank_eq_false_of_isDigit {c : Char} (h : c.isDigit = true) :
    isBlank c = false := by
  simp only [Char.isDigit, ge_iff_le, Bool.and_eq_true, decide_eq_true_eq,
    UInt32.le_iff_toNat_le] at h
  change 48 ≤ c.toNat ∧ c.toNat ≤ 57 at h
  simp only [isBlank, Bool.or_eq_false_iff, Bool.and_eq_false_iff,
    decide_eq_false_iff_not, beq_eq_false_iff_ne]
  omega

section Characters

variable {text low : List Char} {n : UInt64}

theorem Numeral.eq_plus_or_isDigit (h : Numeral text n) :
    ∀ c ∈ text, c = '+' ∨ c.isDigit = true := by
  obtain ⟨digits, htext, _, hdigits, _⟩ := h
  rcases htext with rfl | rfl
  · exact fun c hc => .inr (hdigits c hc)
  · exact List.forall_mem_cons.mpr ⟨.inl rfl, fun c hc => .inr (hdigits c hc)⟩

theorem Numeral.isBlank_eq_false (h : Numeral text n) :
    ∀ c ∈ text, isBlank c = false := by
  intro c hc
  rcases h.eq_plus_or_isDigit c hc with rfl | hdigit
  · decide
  · exact isBlank_eq_false_of_isDigit hdigit

theorem Numeral.trimmed (h : Numeral text n) : Trimmed text :=
  trimmed_of_forall h.isBlank_eq_false

theorem Numeral.dot_not_mem (h : Numeral text n) : '.' ∉ text := by
  intro hdot
  have hchar := h.eq_plus_or_isDigit '.' hdot
  revert hchar
  decide

theorem Numeral.ne_nil (h : Numeral text n) : text ≠ [] := by
  rintro rfl
  have hread := h.readNumeral_eq
  contradiction

theorem Blanks.dot_not_mem (h : Blanks text) : '.' ∉ text := by
  intro hdot
  have hblank := h '.' hdot
  contradiction

theorem not_hasDots_of_not_mem (h : '.' ∉ text) : ¬ HasDots text :=
  fun hdots => h (hdots.subset List.mem_cons_self)

theorem not_hasDots_concat (h : '.' ∉ low) : ¬ HasDots (low ++ ['.']) := by
  induction low with
  | nil => exact show ¬ ['.', '.'] <:+: ['.'] by decide
  | cons c low ih =>
      rw [List.mem_cons, not_or] at h
      obtain ⟨hc, hlow⟩ := h
      rw [List.cons_append, hasDots_cons, not_or]
      exact ⟨fun hfirst => hc hfirst.1.symm, ih hlow⟩

end Characters

namespace CountRange

/-- The grammar: the texts, without blanks at their ends, that denote a range. -/
inductive Denotes : List Char → CountRange → Prop
  | exactly {low : List Char} {n : UInt64} (hlow : Numeral low n) :
      Denotes low (exactly n)
  | spaced {low gap high : List Char} {n m : UInt64} (hlow : Numeral low n)
      (hgap : Blanks gap)
      (hne : gap ≠ []) (hhigh : Numeral high m) (hle : n ≤ m) :
      Denotes (low ++ gap ++ high) ⟨n, some m⟩
  | atLeast {low before after : List Char} {n : UInt64} (hlow : Numeral low n)
      (hbefore : Blanks before) (hafter : Blanks after) :
      Denotes (low ++ before ++ ['.', '.'] ++ after) (atLeast n)
  | dotted {low before after high : List Char} {n m : UInt64} (hlow : Numeral low n)
      (hbefore : Blanks before) (hafter : Blanks after) (hhigh : Numeral high m)
      (hle : n ≤ m) :
      Denotes (low ++ before ++ ['.', '.'] ++ after ++ high) ⟨n, some m⟩

/-- The bounds that a text is divided into, which need not be numerals. -/
inductive Bounds where
  | only (low : List Char)
  | onward (low : List Char)
  | both (low high : List Char)

def Bounds.low : Bounds → List Char
  | only low => low
  | onward low => low
  | both low _ => low

/-- How any text without blanks at its ends divides into bounds. -/
inductive Divides : List Char → Bounds → Prop
  | whole {text : List Char} (hdots : ¬ HasDots text)
      (hblank : ∀ c ∈ text, isBlank c = false) :
      Divides text (.only text)
  | atBlank {low high : List Char} {c : Char} (hdots : ¬ HasDots (low ++ c :: high))
      (hlow : ∀ d ∈ low, isBlank d = false) (hc : isBlank c = true) :
      Divides (low ++ c :: high) (.both low (trimBlanks high))
  | atDots {low high : List Char} (hfirst : ¬ HasDots (low ++ ['.']))
      (hhigh : ¬ Blanks high) :
      Divides (low ++ '.' :: '.' :: high) (.both (trimBlanks low) (trimBlanks high))
  | beforeDots {low high : List Char} (hfirst : ¬ HasDots (low ++ ['.']))
      (hhigh : Blanks high) :
      Divides (low ++ '.' :: '.' :: high) (.onward (trimBlanks low))

/-- The error for a bound of `input` that is not a numeral. -/
def notACount (input : String) (bound : List Char) (fault : NumeralFault) : Error :=
  .invalidRange input s!"'{String.ofList bound}' is not a count: {fault.message}"

/-- How the reading of bounds ends. -/
inductive ComesTo (input : String) : Bounds → Except Error CountRange → Prop
  | only {low : List Char} {n : UInt64} (hlow : Numeral low n) :
      ComesTo input (.only low) (.ok (exactly n))
  | onward {low : List Char} {n : UInt64} (hlow : Numeral low n) :
      ComesTo input (.onward low) (.ok (CountRange.atLeast n))
  | both {low high : List Char} {n m : UInt64} (hlow : Numeral low n)
      (hhigh : Numeral high m)
      (hle : n ≤ m) : ComesTo input (.both low high) (.ok ⟨n, some m⟩)
  | lowFaulty {bounds : Bounds} {fault : NumeralFault}
      (hlow : FaultyNumeral bounds.low fault) :
      ComesTo input bounds (.error (notACount input bounds.low fault))
  | highFaulty {low high : List Char} {n : UInt64} {fault : NumeralFault}
      (hlow : Numeral low n)
      (hhigh : FaultyNumeral high fault) :
      ComesTo input (.both low high) (.error (notACount input high fault))
  | reversed {low high : List Char} {n m : UInt64} (hlow : Numeral low n)
      (hhigh : Numeral high m) (hlt : m < n) :
      ComesTo input (.both low high) (.error (reversed n m))

def readTrimmed (input : String) (bound : List Char) : Except Error UInt64 :=
  match readNumeral bound with
  | .ok n => .ok n
  | .error fault => .error (notACount input bound fault)

def Bounds.read (input : String) : Bounds → Except Error CountRange
  | only low => (readTrimmed input low).map exactly
  | onward low => (readTrimmed input low).map CountRange.atLeast
  | both low high =>
      (readTrimmed input low).bind fun n => (readTrimmed input high).bind fun m =>
        between n m

section Reading

variable {input : String} {bounds : Bounds} {text : List Char}

theorem readBound_eq (input : String) (part : List Char) :
    readBound input part = readTrimmed input (trimBlanks part) := rfl

theorem readBound_of_forall {part : List Char} (h : ∀ c ∈ part, isBlank c = false) :
    readBound input part = readTrimmed input part := by
  rw [readBound_eq, trimBlanks_of_trimmed (trimmed_of_forall h)]

theorem exists_divides (text : List Char) : ∃ bounds, Divides text bounds := by
  cases hdots : cutAtDots text with
  | some cut =>
      obtain ⟨low, high⟩ := cut
      obtain ⟨rfl, hfirst⟩ := cutAtDots_eq_some hdots
      by_cases hhigh : Blanks high
      · exact ⟨_, .beforeDots hfirst hhigh⟩
      · exact ⟨_, .atDots hfirst hhigh⟩
  | none =>
      have hnone := cutAtDots_eq_none_iff.mp hdots
      cases hblank : cutAtBlank text with
      | some cut =>
          obtain ⟨low, high⟩ := cut
          obtain ⟨c, rfl, hc, hlow⟩ := cutAtBlank_eq_some hblank
          exact ⟨_, .atBlank hnone hlow hc⟩
      | none => exact ⟨_, .whole hnone (cutAtBlank_eq_none_iff.mp hblank)⟩

/-- Reading a text is reading the bounds that it divides into. -/
theorem parse_eq_read (h : Divides (trimBlanks input.toList) bounds) :
    parse input = bounds.read input := by
  generalize hbody : trimBlanks input.toList = body at h
  cases h with
  | whole hdots hblank =>
      simp only [parse, hbody, cutAtDots_eq_none_iff.mpr hdots,
        cutAtBlank_eq_none_iff.mpr hblank, readBound_of_forall hblank]
      rfl
  | atBlank hdots hlow hc =>
      simp only [parse, hbody, cutAtDots_eq_none_iff.mpr hdots,
        cutAtBlank_append hlow hc, readBound_of_forall hlow]
      rfl
  | atDots hfirst hhigh =>
      simp only [parse, hbody, cutAtDots_append hfirst, trimBlanks_eq_nil_iff,
        hhigh, ↓reduceIte]
      rfl
  | beforeDots hfirst hhigh =>
      simp only [parse, hbody, cutAtDots_append hfirst, trimBlanks_eq_nil_iff,
        hhigh, ↓reduceIte]
      rfl

theorem readTrimmed_of_numeral (input : String) {bound : List Char} {n : UInt64}
    (h : Numeral bound n) :
    readTrimmed input bound = .ok n := by
  rw [readTrimmed, h.readNumeral_eq]

theorem readTrimmed_of_faulty (input : String) {bound : List Char}
    {fault : NumeralFault} (h : FaultyNumeral bound fault) :
    readTrimmed input bound = .error (notACount input bound fault) := by
  rw [readTrimmed, h.readNumeral_eq]

theorem ComesTo.read_eq {answer : Except Error CountRange}
    (h : ComesTo input bounds answer) :
    bounds.read input = answer := by
  cases h with
  | only hlow => rw [Bounds.read, readTrimmed_of_numeral input hlow]; rfl
  | onward hlow => rw [Bounds.read, readTrimmed_of_numeral input hlow]; rfl
  | both hlow hhigh hle =>
      rw [Bounds.read, readTrimmed_of_numeral input hlow,
        readTrimmed_of_numeral input hhigh]
      exact if_pos hle
  | lowFaulty hlow =>
      have hread := readTrimmed_of_faulty input hlow
      cases bounds <;>
        (simp only [Bounds.low] at hread; rw [Bounds.read, hread]; rfl)
  | highFaulty hlow hhigh =>
      rw [Bounds.read, readTrimmed_of_numeral input hlow,
        readTrimmed_of_faulty input hhigh]
      rfl
  | reversed hlow hhigh hlt =>
      rw [Bounds.read, readTrimmed_of_numeral input hlow,
        readTrimmed_of_numeral input hhigh]
      exact if_neg (by simpa using hlt)

theorem exists_comesTo (input : String) (bounds : Bounds) :
    ∃ answer, ComesTo input bounds answer := by
  rcases numeral_or_faulty bounds.low with ⟨n, hlow⟩ | ⟨fault, hlow⟩
  · cases bounds with
    | only low => exact ⟨_, .only hlow⟩
    | onward low => exact ⟨_, .onward hlow⟩
    | both low high =>
        rcases numeral_or_faulty high with ⟨m, hhigh⟩ | ⟨fault, hhigh⟩
        · by_cases hle : n ≤ m
          · exact ⟨_, .both hlow hhigh hle⟩
          · exact ⟨_, .reversed hlow hhigh (by simpa using hle)⟩
        · exact ⟨_, .highFaulty hlow hhigh⟩
  · exact ⟨_, .lowFaulty hlow⟩

/-- There is one ending for each text, that of the bounds it divides into. -/
theorem parse_eq_iff {answer : Except Error CountRange}
    (h : Divides (trimBlanks input.toList) bounds) :
    parse input = answer ↔ ComesTo input bounds answer := by
  rw [parse_eq_read h]
  constructor
  · rintro rfl
    obtain ⟨answer, hcomes⟩ := exists_comesTo input bounds
    rwa [hcomes.read_eq]
  · exact ComesTo.read_eq

end Reading

section Numerals

variable {low gap before after high : List Char} {n m : UInt64}

theorem divides_whole (hlow : Numeral low n) : Divides low (.only low) :=
  .whole (not_hasDots_of_not_mem hlow.dot_not_mem) hlow.isBlank_eq_false

/-- Two numerals divide at the blanks between them, whichever of them is larger. -/
theorem divides_spaced (hlow : Numeral low n) (hgap : Blanks gap) (hne : gap ≠ [])
    (hhigh : Numeral high m) : Divides (low ++ gap ++ high) (.both low high) := by
  have hdots : ¬ HasDots (low ++ gap ++ high) := not_hasDots_of_not_mem <| by
    simp [hlow.dot_not_mem, hgap.dot_not_mem, hhigh.dot_not_mem]
  obtain ⟨c, rest, rfl⟩ := List.exists_cons_of_ne_nil hne
  obtain ⟨hc, hrest⟩ := List.forall_mem_cons.mp hgap
  rw [List.append_assoc, List.cons_append] at hdots ⊢
  have hdivides := Divides.atBlank hdots hlow.isBlank_eq_false hc
  rwa [trimBlanks_append_left hrest hhigh.trimmed] at hdivides

theorem divides_onward (hlow : Numeral low n) (hbefore : Blanks before)
    (hafter : Blanks after) :
    Divides (low ++ before ++ ['.', '.'] ++ after) (.onward low) := by
  have hfirst : ¬ HasDots (low ++ before ++ ['.']) := not_hasDots_concat <| by
    simp [hlow.dot_not_mem, hbefore.dot_not_mem]
  have hdivides := Divides.beforeDots hfirst hafter
  rw [trimBlanks_append_right hlow.trimmed hbefore] at hdivides
  simpa using hdivides

theorem divides_dotted (hlow : Numeral low n) (hbefore : Blanks before)
    (hafter : Blanks after) (hhigh : Numeral high m) :
    Divides (low ++ before ++ ['.', '.'] ++ after ++ high) (.both low high) := by
  have hfirst : ¬ HasDots (low ++ before ++ ['.']) := not_hasDots_concat <| by
    simp [hlow.dot_not_mem, hbefore.dot_not_mem]
  have htrim := trimBlanks_append_left hafter hhigh.trimmed
  have hblanks : ¬ Blanks (after ++ high) := by
    rw [← trimBlanks_eq_nil_iff, htrim]
    exact hhigh.ne_nil
  have hdivides := Divides.atDots hfirst hblanks
  rw [trimBlanks_append_right hlow.trimmed hbefore, htrim] at hdivides
  simpa using hdivides

end Numerals

section Grammar

variable {input : String} {bounds : Bounds} {text : List Char} {n : UInt64}
  {range : CountRange}

/-- A text that denotes a range divides into bounds that are read as that range. -/
theorem Denotes.exists_divides (h : Denotes text range) :
    ∃ bounds, Divides text bounds ∧ ComesTo input bounds (.ok range) := by
  cases h with
  | exactly hlow => exact ⟨_, divides_whole hlow, .only hlow⟩
  | spaced hlow hgap hne hhigh hle =>
      exact ⟨_, divides_spaced hlow hgap hne hhigh, .both hlow hhigh hle⟩
  | atLeast hlow hbefore hafter =>
      exact ⟨_, divides_onward hlow hbefore hafter, .onward hlow⟩
  | dotted hlow hbefore hafter hhigh hle =>
      exact ⟨_, divides_dotted hlow hbefore hafter hhigh, .both hlow hhigh hle⟩

/-- A text without blanks at its ends that divides into bounds that are read as
a range denotes that range. -/
theorem Divides.denotes (h : Divides text bounds) (htext : Trimmed text)
    (hcomes : ComesTo input bounds (.ok range)) : Denotes text range := by
  cases h with
  | whole hdots hblank =>
      cases hcomes with
      | only hlow => exact .exactly hlow
  | @atBlank low high c hdots hlow hc =>
      have hsplit : Trimmed (low ++ [c] ++ high) := by simpa using htext
      obtain ⟨gap, hgap, hhigh⟩ := hsplit.exists_before
      cases hcomes with
      | both hnumeral hnumeral' hle =>
          have hblanks : Blanks (c :: gap) := List.forall_mem_cons.mpr ⟨hc, hgap⟩
          have hdenotes :=
            Denotes.spaced hnumeral hblanks (List.cons_ne_nil c gap) hnumeral' hle
          rwa [List.append_assoc, List.cons_append, hhigh] at hdenotes
  | @atDots low high hfirst hhigh =>
      have hsplit : Trimmed (low ++ ['.', '.'] ++ high) := by simpa using htext
      obtain ⟨before, hbefore, hlow⟩ := htext.exists_after
      obtain ⟨after, hafter, hhigh⟩ := hsplit.exists_before
      cases hcomes with
      | both hnumeral hnumeral' hle =>
          have hdenotes := Denotes.dotted hnumeral hbefore hafter hnumeral' hle
          rw [hlow, List.append_assoc _ after, hhigh] at hdenotes
          simpa using hdenotes
  | @beforeDots low high hfirst hhigh =>
      obtain ⟨before, hbefore, hlow⟩ := htext.exists_after
      cases hcomes with
      | onward hnumeral =>
          have hdenotes := Denotes.atLeast hnumeral hbefore hhigh
          rw [hlow] at hdenotes
          simpa using hdenotes

end Grammar

/-- The reader takes the blanks off both ends of a text, accepts it exactly if
what is left denotes a range, and reads that range.  Every other text divides
into bounds, and the error is that of the lower bound if it is not a numeral,
else that of the upper one, else that they are in the wrong order. -/
theorem parse_follows_grammar (input : String) :
    let text := trimBlanks input.toList
    (∃ before after, Blanks before ∧ Blanks after ∧
      input.toList = before ++ text ++ after) ∧
    Trimmed text ∧
    (∀ range, parse input = .ok range ↔ Denotes text range) ∧
    (∃ bounds, Divides text bounds) ∧
    ∀ bounds, Divides text bounds → ∀ error, parse input = .error error ↔
      ComesTo input bounds (.error error) := by
  intro text
  refine ⟨exists_trimBlanks _, trimmed_trimBlanks _,
    fun range => ⟨fun h => ?_, fun h => ?_⟩,
    exists_divides text, fun bounds hdivides error => parse_eq_iff hdivides⟩
  · obtain ⟨bounds, hdivides⟩ := exists_divides text
    exact hdivides.denotes (trimmed_trimBlanks _) ((parse_eq_iff hdivides).mp h)
  · obtain ⟨bounds, hdivides, hcomes⟩ := h.exists_divides
    exact (parse_eq_iff hdivides).mpr hcomes

end CountRange

end BoardQuery
