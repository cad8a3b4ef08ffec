/-
Well-formed JSON.  A grammar says over the bytes of a text what a JSON value is:
a word, a number, a quoted text, a list or an object, with lists and objects
nested to any depth.  What passes over one value passes over a value of this
grammar and stops exactly behind it.
-/
import BoardQuery.Proofs.WrittenRecord
import Mathlib.Data.FinEnum
import Mathlib.Data.List.DropRight

namespace BoardQuery

/-- Bytes that may stand between the tokens of a JSON text. -/
def JsonBlanks (bs : Bytes) : Prop :=
  ∀ b ∈ bs, b ∈ utf8 " \t\n\r"

def JsonDigits (bs : Bytes) : Prop :=
  bs ≠ [] ∧ ∀ b ∈ bs, b ∈ utf8 "0123456789"

/-- The digits in front of the point of a number.  A zero stands alone. -/
inductive JsonWhole : Bytes → Prop
  | zero : JsonWhole ['0'.toUInt8]
  | digits {bs : Bytes} (h : JsonDigits bs) (hzero : bs.head? ≠ some '0'.toUInt8) :
      JsonWhole bs

inductive JsonFraction : Bytes → Prop
  | absent : JsonFraction []
  | point {bs : Bytes} (h : JsonDigits bs) : JsonFraction ('.'.toUInt8 :: bs)

/-- An exponent with its letter, or nothing. -/
inductive JsonExponent : Bytes → Prop
  | absent : JsonExponent []
  | power {letter : UInt8} {sign bs : Bytes} (hletter : letter ∈ utf8 "eE")
      (hsign : sign ∈ [[], utf8 "+", utf8 "-"]) (h : JsonDigits bs) :
      JsonExponent (letter :: (sign ++ bs))

inductive JsonNumber : Bytes → Prop
  | mk {sign whole fraction exponent : Bytes} (hsign : sign ∈ [[], utf8 "-"])
      (hwhole : JsonWhole whole) (hfraction : JsonFraction fraction)
      (hexponent : JsonExponent exponent) :
      JsonNumber (sign ++ (whole ++ (fraction ++ exponent)))

/-- What stands for one character between quotes, or for a part of one. -/
inductive JsonPiece : Bytes → Prop
  | plain {b : UInt8} (hquote : b ≠ '"'.toUInt8) (hslash : b ≠ '\\'.toUInt8)
      (hcontrol : ¬b < 0x20) : JsonPiece [b]
  | short {letter : UInt8} (h : letter ∈ utf8 "\"\\/bfnrt") :
      JsonPiece ['\\'.toUInt8, letter]
  | unit {digits : Bytes} (hlength : digits.length = 4)
      (hdigits : ∀ b ∈ digits, b ∈ utf8 "0123456789abcdefABCDEF") :
      JsonPiece ('\\'.toUInt8 :: 'u'.toUInt8 :: digits)

/-- A quoted text from behind its opening quote on. -/
inductive JsonQuoted : Bytes → Prop
  | close : JsonQuoted ['"'.toUInt8]
  | piece {bs rest : Bytes} (h : JsonPiece bs) (hrest : JsonQuoted rest) :
      JsonQuoted (bs ++ rest)

/-- The parts of JSON that are nested in one another.  Elements and members have
blanks around them, and several of either have commas between them. -/
inductive JsonPart where
  | value
  | element
  | elements
  | member
  | members
deriving DecidableEq, Repr

/-- The well-formed texts of each part. -/
inductive JsonForm : JsonPart → Bytes → Prop
  | word {bs : Bytes} (h : bs ∈ [utf8 "null", utf8 "true", utf8 "false"]) :
      JsonForm .value bs
  | number {bs : Bytes} (h : JsonNumber bs) : JsonForm .value bs
  | quoted {bs : Bytes} (h : JsonQuoted bs) : JsonForm .value ('"'.toUInt8 :: bs)
  | emptyList {bs : Bytes} (h : JsonBlanks bs) :
      JsonForm .value ('['.toUInt8 :: (bs ++ [']'.toUInt8]))
  | list {bs : Bytes} (h : JsonForm .elements bs) :
      JsonForm .value ('['.toUInt8 :: (bs ++ [']'.toUInt8]))
  | emptyObject {bs : Bytes} (h : JsonBlanks bs) :
      JsonForm .value ('\x7b'.toUInt8 :: (bs ++ ['\x7d'.toUInt8]))
  | object {bs : Bytes} (h : JsonForm .members bs) :
      JsonForm .value ('\x7b'.toUInt8 :: (bs ++ ['\x7d'.toUInt8]))
  | element {before bs after : Bytes} (hbefore : JsonBlanks before)
      (h : JsonForm .value bs)
      (hafter : JsonBlanks after) : JsonForm .element (before ++ (bs ++ after))
  | lastElement {bs : Bytes} (h : JsonForm .element bs) : JsonForm .elements bs
  | nextElement {bs more : Bytes} (h : JsonForm .element bs)
      (hmore : JsonForm .elements more) :
      JsonForm .elements (bs ++ ','.toUInt8 :: more)
  | member {before key after bs : Bytes} (hbefore : JsonBlanks before)
      (hkey : JsonQuoted key)
      (hafter : JsonBlanks after) (h : JsonForm .element bs) :
      JsonForm .member (before ++ '"'.toUInt8 ::
        (key ++ (after ++ ':'.toUInt8 :: bs)))
  | lastMember {bs : Bytes} (h : JsonForm .member bs) : JsonForm .members bs
  | nextMember {bs more : Bytes} (h : JsonForm .member bs)
      (hmore : JsonForm .members more) :
      JsonForm .members (bs ++ ','.toUInt8 :: more)

section Blanks

theorem skipBlanks_append {blanks : Bytes} (h : JsonBlanks blanks) (rest : Bytes) :
    skipBlanks (blanks ++ rest) = skipBlanks rest := by
  have hall : ∀ b ∈ utf8 " \t\n\r", isJsonBlank b = true := by decide +kernel
  exact List.dropWhile_append_of_pos fun b hb => hall b (h b hb)

theorem skipBlanks_append_cons {blanks : Bytes} (h : JsonBlanks blanks) {b : UInt8}
    (hb : isJsonBlank b = false) (rest : Bytes) :
    skipBlanks (blanks ++ b :: rest) = b :: rest := by
  rw [skipBlanks_append h, skipBlanks_cons hb]

/-- What is left behind blanks does not start with another one. -/
theorem skipBlanks_of_skipBlanks_eq {bs tail : Bytes} {b : UInt8}
    (h : skipBlanks bs = b :: tail) :
    skipBlanks (b :: tail) = b :: tail := by
  rw [← h, skipBlanks, skipBlanks, List.dropWhile_idempotent]

/-- Bytes that start like blanks or like a byte that no number goes on with do
not go on with a number. -/
theorem endsNumber_append {blanks rest : Bytes} (h : JsonBlanks blanks)
    (hrest : EndsNumber rest) :
    EndsNumber (blanks ++ rest) := by
  cases blanks with
  | nil => exact hrest
  | cons b blanks =>
      have hall : ∀ b ∈ utf8 " \t\n\r", isDigitByte b = false ∧ b ≠ '.'.toUInt8 ∧
          b ≠ 'e'.toUInt8 ∧ b ≠ 'E'.toUInt8 := by decide +kernel
      intro c hc
      obtain rfl : b = c := by simpa using hc
      exact hall b (h b List.mem_cons_self)

end Blanks

section Numbers

variable {rest : Bytes}

theorem isDigitByte_of_mem_digits {b : UInt8} (h : b ∈ utf8 "0123456789") :
    isDigitByte b = true := by
  have hall : ∀ b ∈ utf8 "0123456789", isDigitByte b = true := by decide +kernel
  exact hall b h

theorem JsonDigits.spanDigits_append {digits : Bytes} (h : JsonDigits digits)
    (hrest : ∀ b ∈ rest.head?, isDigitByte b = false) :
    spanDigits (digits ++ rest) = (digits, rest) :=
  BoardQuery.spanDigits_append (fun b hb => isDigitByte_of_mem_digits (h.2 b hb))
    hrest

theorem JsonDigits.readSomeDigits_append {digits : Bytes} (h : JsonDigits digits)
    (hrest : ∀ b ∈ rest.head?, isDigitByte b = false) :
    readSomeDigits (digits ++ rest) = .ok (digits, rest) := by
  obtain ⟨b, bs, rfl⟩ := List.exists_cons_of_ne_nil h.1
  rw [readSomeDigits, h.spanDigits_append hrest]

theorem JsonWhole.readWhole_append {whole : Bytes} (h : JsonWhole whole)
    (hrest : ∀ b ∈ rest.head?, isDigitByte b = false) :
    readWhole (whole ++ rest) = .ok (whole, rest) := by
  cases h with
  | zero =>
      have hspan : spanDigits ([] ++ rest) = ([], rest) :=
        BoardQuery.spanDigits_append nofun hrest
      simp_all [readWhole]
  | digits h hzero =>
      obtain ⟨b, bs, rfl⟩ := List.exists_cons_of_ne_nil h.1
      have hdigits := List.forall_mem_cons.mp h.2
      have hspan := BoardQuery.spanDigits_append
        (fun c hc => isDigitByte_of_mem_digits (hdigits.2 c hc)) hrest
      have hb : b ≠ '0'.toUInt8 := fun hb => hzero (congrArg some hb)
      rw [List.cons_append, readWhole, if_neg hb,
        if_pos (isDigitByte_of_mem_digits hdigits.1), hspan]

theorem JsonDigits.exists_cons {digits : Bytes} (h : JsonDigits digits) :
    ∃ b tail, digits = b :: tail ∧ isDigitByte b = true := by
  obtain ⟨b, tail, rfl⟩ := List.exists_cons_of_ne_nil h.1
  exact ⟨b, tail, rfl, isDigitByte_of_mem_digits (h.2 b List.mem_cons_self)⟩

theorem JsonWhole.exists_cons {whole : Bytes} (h : JsonWhole whole) :
    ∃ b tail, whole = b :: tail ∧ isDigitByte b = true := by
  cases h with
  | zero => exact ⟨_, [], rfl, by decide⟩
  | digits h _ => exact h.exists_cons

theorem ne_of_isDigitByte {b c : UInt8} (hb : isDigitByte b = true)
    (hc : isDigitByte c = false) :
    b ≠ c := by
  rintro rfl
  exact absurd hb (by simp [hc])

theorem JsonDigits.readSign_append {digits sign : Bytes} (h : JsonDigits digits)
    (hsign : sign ∈ [[], utf8 "+", utf8 "-"]) (rest : Bytes) :
    (readSign (sign ++ (digits ++ rest))).2 = digits ++ rest := by
  obtain ⟨b, tail, rfl, hb⟩ := h.exists_cons
  have hplus : utf8 "+" = ['+'.toUInt8] := by decide
  have hminus : utf8 "-" = ['-'.toUInt8] := by decide
  simp only [List.mem_cons, List.not_mem_nil, or_false, hplus, hminus] at hsign
  rcases hsign with rfl | rfl | rfl
  · rw [List.nil_append, List.cons_append, readSign,
      if_neg (ne_of_isDigitByte hb (by decide)),
      if_neg (ne_of_isDigitByte hb (by decide))]
  · rfl
  · rfl

theorem JsonExponent.readExponent_append {exponent : Bytes}
    (h : JsonExponent exponent) (hrest : EndsNumber rest) :
    ∃ power, readExponent (exponent ++ rest) = .ok (power, rest) := by
  cases h with
  | absent => exact ⟨none, readExponent_of_endsNumber hrest⟩
  | @power letter sign bs hletter hsign h =>
      have hall : ∀ b ∈ utf8 "eE", b = 'e'.toUInt8 ∨
        b = 'E'.toUInt8 := by decide +kernel
      have hread := h.readSomeDigits_append fun b hb => (hrest b hb).1
      refine ⟨some ((readSign (sign ++ (bs ++ rest))).1, bs), ?_⟩
      rw [List.cons_append, List.append_assoc, readExponent,
        if_pos (hall letter hletter), h.readSign_append hsign, hread]
      rfl

/-- What may follow the whole digits of a number is no digit. -/
theorem JsonExponent.head?_append {exponent : Bytes} (h : JsonExponent exponent)
    (hrest : EndsNumber rest) :
    ∀ b ∈ (exponent ++ rest).head?, isDigitByte b = false ∧ b ≠ '.'.toUInt8 := by
  cases h with
  | absent => exact fun b hb => ⟨(hrest b hb).1, (hrest b hb).2.1⟩
  | @power letter sign bs hletter hsign h =>
      have hall : ∀ b ∈ utf8 "eE", isDigitByte b = false ∧
        b ≠ '.'.toUInt8 := by decide +kernel
      intro b hb
      obtain rfl : letter = b := by simpa using hb
      exact hall letter hletter

theorem JsonFraction.readFraction_append {fraction : Bytes}
    (h : JsonFraction fraction)
    (hrest : ∀ b ∈ rest.head?, isDigitByte b = false ∧ b ≠ '.'.toUInt8) :
    ∃ digits?, readFraction (fraction ++ rest) = .ok (digits?, rest) := by
  cases h with
  | absent =>
      refine ⟨none, ?_⟩
      cases rest with
      | nil => rfl
      | cons b rest => simp [readFraction, (hrest b rfl).2]
  | @point bs h =>
      have hread := h.readSomeDigits_append fun b hb => (hrest b hb).1
      refine ⟨some bs, ?_⟩
      rw [List.cons_append, readFraction, if_pos rfl, hread]
      rfl

theorem JsonFraction.head?_append {fraction : Bytes} (h : JsonFraction fraction)
    (hrest : ∀ b ∈ rest.head?, isDigitByte b = false) :
    ∀ b ∈ (fraction ++ rest).head?, isDigitByte b = false := by
  cases h with
  | absent => exact hrest
  | point h =>
      intro b hb
      obtain rfl : '.'.toUInt8 = b := by simpa using hb
      decide

theorem JsonNumber.readShape_append {bs : Bytes} (h : JsonNumber bs)
    (hrest : EndsNumber rest) :
    ∃ shape, readShape (bs ++ rest) = .ok (shape, rest) := by
  obtain @⟨sign, whole, fraction, exponent, hsign, hwhole, hfraction, hexponent⟩ :=
    h
  have hafter := hexponent.head?_append hrest
  obtain ⟨power, hpower⟩ := hexponent.readExponent_append hrest
  obtain ⟨digits?, hdigits⟩ := hfraction.readFraction_append hafter
  have hread :=
    hwhole.readWhole_append (hfraction.head?_append fun b hb => (hafter b hb).1)
  have hunsigned : ∀ negative,
      readUnsigned negative (whole ++ (fraction ++ (exponent ++ rest))) =
        .ok (⟨negative, whole, digits?, power⟩, rest) := by
    intro negative
    simp [readUnsigned, hread, hdigits, hpower, bind, Except.bind, pure,
      Except.pure]
  have hminus : utf8 "-" = ['-'.toUInt8] := by decide
  simp only [List.mem_cons, List.not_mem_nil, or_false, hminus] at hsign
  simp only [List.append_assoc]
  rcases hsign with rfl | rfl
  · refine ⟨⟨false, whole, digits?, power⟩, ?_⟩
    obtain ⟨b, tail, rfl, hb⟩ := hwhole.exists_cons
    rw [← hunsigned false]
    exact if_neg (ne_of_isDigitByte hb (by decide))
  · exact ⟨⟨true, whole, digits?, power⟩, hunsigned true⟩

theorem JsonNumber.exists_cons {bs : Bytes} (h : JsonNumber bs) :
    ∃ b tail, bs = b :: tail ∧ (b = '-'.toUInt8 ∨ isDigitByte b = true) := by
  obtain @⟨sign, whole, fraction, exponent, hsign, hwhole, -, -⟩ := h
  have hminus : utf8 "-" = ['-'.toUInt8] := by decide
  simp only [List.mem_cons, List.not_mem_nil, or_false, hminus] at hsign
  rcases hsign with rfl | rfl
  · obtain ⟨b, tail, rfl, hb⟩ := hwhole.exists_cons
    exact ⟨b, _, rfl, .inr hb⟩
  · exact ⟨_, _, rfl, .inl rfl⟩

end Numbers

section Quoted

variable {bs rest : Bytes}

theorem skipText_of_close (hpiece : readPiece bs = .ok (.close, rest)) :
    skipText bs = .ok rest := by
  rw [skipText]
  split <;> simp_all

/-- A piece that is not the closing quote is passed over. -/
theorem skipText_of_piece {piece : Piece}
    (hpiece : readPiece bs = .ok (piece, rest)) (hopen : piece ≠ .close) :
    skipText bs = skipText rest := by
  rw [skipText]
  split <;> simp_all

theorem exists_hexValue_of_mem {b : UInt8} (h : b ∈ utf8 "0123456789abcdefABCDEF") :
    ∃ n, hexValue? b = some n := by
  have hall : ∀ b ∈ utf8 "0123456789abcdefABCDEF", (hexValue? b).isSome = true := by
    decide +kernel
  exact Option.isSome_iff_exists.mp (hall b h)

theorem JsonPiece.readPiece_append (h : JsonPiece bs) (rest : Bytes) :
    ∃ piece, readPiece (bs ++ rest) = .ok (piece, rest) ∧ piece ≠ .close := by
  cases h with
  | @plain b hquote hslash hcontrol =>
      exact ⟨.byte b, by simp [readPiece, hquote, hslash, hcontrol], by simp⟩
  | @short letter h =>
      have hall : ∀ b ∈ utf8 "\"\\/bfnrt",
          b ≠ 'u'.toUInt8 ∧ (shortEscape? b).isSome = true := by
        decide +kernel
      obtain ⟨hletter, hshort⟩ := hall letter h
      obtain ⟨b, hb⟩ := Option.isSome_iff_exists.mp hshort
      refine ⟨.byte b, ?_, by simp⟩
      rw [List.cons_append, List.singleton_append, readPiece_backslash, readEscape,
        if_neg hletter, hb]
  | @unit digits hlength hdigits =>
      obtain ⟨a, b, c, d, rfl⟩ := List.length_eq_four.mp hlength
      simp only [List.forall_mem_cons] at hdigits
      obtain ⟨ha, hb, hc, hd, -⟩ := hdigits
      obtain ⟨a', ha⟩ := exists_hexValue_of_mem ha
      obtain ⟨b', hb⟩ := exists_hexValue_of_mem hb
      obtain ⟨c', hc⟩ := exists_hexValue_of_mem hc
      obtain ⟨d', hd⟩ := exists_hexValue_of_mem hd
      refine ⟨.unit (((a' * 16 + b') * 16 + c') * 16 + d'), ?_, by simp⟩
      rw [List.cons_append, readPiece_backslash, List.cons_append, readEscape,
        if_pos rfl]
      simp [readUnit, ha, hb, hc, hd, Except.map]

/-- A quoted text is passed over up to its closing quote. -/
theorem JsonQuoted.skipText_append (h : JsonQuoted bs) (rest : Bytes) :
    skipText (bs ++ rest) = .ok rest := by
  induction h with
  | close => exact skipText_of_close rfl
  | @piece bs more h _ ih =>
      obtain ⟨piece, hpiece, hopen⟩ := h.readPiece_append (more ++ rest)
      rw [List.append_assoc, skipText_of_piece hpiece hopen, ih]

end Quoted

section Skipping

variable {stack : List Bracket} {bs tail rest : Bytes} {b : UInt8}

/-- The first byte of a value decides how to pass over it. -/
theorem skipOn_value (hbs : skipBlanks bs = b :: tail) :
    skipOn .value stack bs =
      if b = '['.toUInt8 then
        match skipBlanks tail with
        | [] => .error .truncated
        | c :: inner =>
            if c = ']'.toUInt8 then skipOn .more stack inner
            else skipOn .value (.list :: stack) (c :: inner)
      else if b = '\x7b'.toUInt8 then
        match skipBlanks tail with
        | [] => .error .truncated
        | c :: inner =>
            if c = '\x7d'.toUInt8 then skipOn .more stack inner
            else skipOn .member (.object :: stack) (c :: inner)
      else
        match skipScalar (b :: tail) with
        | .error fault => .error fault
        | .ok rest => skipOn .more stack rest := by
  rw [skipOn]
  split
  · simp_all
  · next heq =>
      obtain ⟨rfl, rfl⟩ := List.cons.inj (heq.symm.trans hbs)
      congr 1
      · split <;> rename_i hinner <;> rw [hinner]
      · congr 1
        · split <;> rename_i hinner <;> rw [hinner]
        · split <;> rename_i hscalar <;> rw [hscalar]

theorem skipOn_member (hkey : skipKey bs = .ok rest) :
    skipOn .member stack bs = skipOn .value stack rest := by
  conv_lhs => rw [skipOn]
  split
  · simp_all
  · next heq => rw [Except.ok.inj (heq.symm.trans hkey)]

/-- Behind an element of a list comes another one, or the closing bracket. -/
theorem skipOn_more_list (hbs : skipBlanks bs = b :: tail) :
    skipOn .more (.list :: stack) bs =
      if b = ','.toUInt8 then skipOn .value (.list :: stack) tail
      else if b = ']'.toUInt8 then skipOn .more stack tail
      else .error .malformed := by
  conv_lhs => rw [skipOn]
  split
  · simp_all
  · next heq =>
      obtain ⟨rfl, rfl⟩ := List.cons.inj (heq.symm.trans hbs)
      rfl

/-- Behind a member of an object comes another one, or the closing bracket. -/
theorem skipOn_more_object (hbs : skipBlanks bs = b :: tail) :
    skipOn .more (.object :: stack) bs =
      if b = ','.toUInt8 then skipOn .member (.object :: stack) tail
      else if b = '\x7d'.toUInt8 then skipOn .more stack tail
      else .error .malformed := by
  conv_lhs => rw [skipOn]
  split
  · simp_all
  · next heq =>
      obtain ⟨rfl, rfl⟩ := List.cons.inj (heq.symm.trans hbs)
      rfl

/-- Blanks in front of a value are passed over with it. -/
theorem skipOn_value_of_skipBlanks (hbs : skipBlanks bs = b :: tail) :
    skipOn .value stack (b :: tail) = skipOn .value stack bs := by
  rw [skipOn_value hbs, skipOn_value (skipBlanks_of_skipBlanks_eq hbs)]

theorem skipOn_value_append {blanks : Bytes} (hblanks : JsonBlanks blanks)
    (hbs : skipBlanks bs = b :: tail) :
    skipOn .value stack (blanks ++ bs) = skipOn .value stack bs := by
  rw [← skipOn_value_of_skipBlanks hbs,
    skipOn_value_of_skipBlanks ((skipBlanks_append hblanks bs).trans hbs)]

theorem skipOn_member_of_skipBlanks (hbs : skipBlanks bs = b :: tail) :
    skipOn .member stack (b :: tail) = skipOn .member stack bs := by
  have hkey : skipKey (b :: tail) = skipKey bs := by
    rw [skipKey, skipKey, hbs, skipBlanks_of_skipBlanks_eq hbs]
  rw [skipOn, skipOn, hkey]

theorem skipScalar_word {bs : Bytes}
    (h : bs ∈ [utf8 "null", utf8 "true", utf8 "false"]) (rest : Bytes) :
    skipScalar (bs ++ rest) = .ok rest := by
  have hnull : utf8 "null" = 'n'.toUInt8 :: utf8 "ull" := by decide
  have htrue : utf8 "true" = 't'.toUInt8 :: utf8 "rue" := by decide
  have hfalse : utf8 "false" = 'f'.toUInt8 :: utf8 "alse" := by decide
  simp only [List.mem_cons, List.not_mem_nil, or_false] at h
  rcases h with rfl | rfl | rfl
  · rw [hnull, List.cons_append, skipScalar, if_pos rfl, skipWord_append]
  · rw [htrue, List.cons_append, skipScalar, if_neg (by decide), if_pos rfl,
      skipWord_append]
  · rw [hfalse, List.cons_append, skipScalar, if_neg (by decide),
      if_neg (by decide), if_pos rfl, skipWord_append]

theorem skipScalar_eq_skipNumber (hb : b = '-'.toUInt8 ∨ isDigitByte b = true)
    (tail : Bytes) :
    skipScalar (b :: tail) = skipNumber (b :: tail) := by
  have hne : ∀ c, c ≠ '-'.toUInt8 → isDigitByte c = false → b ≠ c := by
    rintro c hminus hdigit rfl
    rcases hb with rfl | hb
    · exact hminus rfl
    · simp [hdigit] at hb
  rw [skipScalar, if_neg (hne _ (by decide) (by decide)),
    if_neg (hne _ (by decide) (by decide)), if_neg (hne _ (by decide) (by decide)),
    if_neg (hne _ (by decide) (by decide)), if_pos hb]

theorem skipScalar_number {bs : Bytes} (h : JsonNumber bs)
    (hrest : EndsNumber rest) :
    skipScalar (bs ++ rest) = .ok rest := by
  obtain ⟨shape, hshape⟩ := h.readShape_append hrest
  obtain ⟨b, tail, rfl, hb⟩ := h.exists_cons
  rw [List.cons_append] at hshape ⊢
  rw [skipScalar_eq_skipNumber hb, skipNumber, hshape]

theorem skipColon_append {blanks : Bytes} (hblanks : JsonBlanks blanks)
    (rest : Bytes) :
    skipColon (blanks ++ ':'.toUInt8 :: rest) = .ok rest := by
  rw [skipColon, skipBlanks_append_cons hblanks (by decide)]
  exact if_pos rfl

theorem skipKey_append {before key after : Bytes} (hbefore : JsonBlanks before)
    (hkey : JsonQuoted key) (hafter : JsonBlanks after) (rest : Bytes) :
    skipKey (before ++ '"'.toUInt8 :: (key ++ (after ++ ':'.toUInt8 :: rest))) =
      .ok rest := by
  rw [skipKey, skipBlanks_append_cons hbefore (by decide)]
  dsimp only
  rw [if_pos rfl, hkey.skipText_append]
  exact skipColon_append hafter rest

theorem skipScalar_quoted {bs : Bytes} (h : JsonQuoted bs) (rest : Bytes) :
    skipScalar ('"'.toUInt8 :: (bs ++ rest)) = .ok rest := by
  rw [skipScalar, if_neg (by decide), if_neg (by decide), if_neg (by decide),
    if_pos rfl, h.skipText_append]

end Skipping

/-- A byte that is no blank and no bracket. -/
def StartsScalar (b : UInt8) : Prop :=
  isJsonBlank b = false ∧ b ∉ utf8 "[]\x7b\x7d"

instance (b : UInt8) : Decidable (StartsScalar b) :=
  inferInstanceAs (Decidable (_ ∧ _))

theorem exists_cons_of_word {bs : Bytes}
    (h : bs ∈ [utf8 "null", utf8 "true", utf8 "false"]) :
    ∃ b tail, bs = b :: tail ∧ StartsScalar b := by
  have hall : ∀ bs ∈ [utf8 "null", utf8 "true", utf8 "false"], ∃ b ∈ bs.head?,
      StartsScalar b := by
    decide +kernel
  obtain ⟨b, hb, hstart⟩ := hall bs h
  obtain ⟨tail, rfl⟩ := List.head?_eq_some_iff.mp hb
  exact ⟨b, tail, rfl, hstart⟩

theorem startsScalar_of_number :
    ∀ b : UInt8, b = '-'.toUInt8 ∨ isDigitByte b = true → StartsScalar b := by
  decide +kernel

theorem JsonNumber.exists_startsScalar {bs : Bytes} (h : JsonNumber bs) :
    ∃ b tail, bs = b :: tail ∧ StartsScalar b := by
  obtain ⟨b, tail, rfl, hb⟩ := h.exists_cons
  exact ⟨b, tail, rfl, startsScalar_of_number b hb⟩

theorem StartsScalar.ne {b c : UInt8} (h : StartsScalar b)
    (hc : c ∈ utf8 "[]\x7b\x7d") :
    b ≠ c := by
  rintro rfl
  exact h.2 hc

/-- A value, an element or a member starts with a byte that is no blank and
closes nothing. -/
theorem JsonForm.exists_skipBlanks {part : JsonPart} {bs : Bytes}
    (h : JsonForm part bs) (rest : Bytes) :
    ∃ b tail, skipBlanks (bs ++ rest) = b :: tail ∧ b ≠ ']'.toUInt8 ∧
      b ≠ '\x7d'.toUInt8 := by
  have hfirst : ∀ {b : UInt8} (tail : Bytes), isJsonBlank b = false →
      b ≠ ']'.toUInt8 →
        b ≠ '\x7d'.toUInt8 → ∃ c after, skipBlanks (b :: tail) = c :: after ∧
          c ≠ ']'.toUInt8 ∧
          c ≠ '\x7d'.toUInt8 := fun tail hb hlist hobject =>
    ⟨_, tail, skipBlanks_cons hb tail, hlist, hobject⟩
  induction h generalizing rest with
  | word h =>
      obtain ⟨b, tail, rfl, hb⟩ := exists_cons_of_word h
      exact hfirst _ hb.1 (hb.ne (by decide)) (hb.ne (by decide))
  | number h =>
      obtain ⟨b, tail, rfl, hb⟩ := h.exists_startsScalar
      exact hfirst _ hb.1 (hb.ne (by decide)) (hb.ne (by decide))
  | quoted h => exact hfirst _ (by decide) (by decide) (by decide)
  | emptyList h => exact hfirst _ (by decide) (by decide) (by decide)
  | list h => exact hfirst _ (by decide) (by decide) (by decide)
  | emptyObject h => exact hfirst _ (by decide) (by decide) (by decide)
  | object h => exact hfirst _ (by decide) (by decide) (by decide)
  | element hbefore h hafter ih =>
      rw [List.append_assoc, skipBlanks_append hbefore, List.append_assoc]
      exact ih _
  | lastElement h ih => exact ih rest
  | nextElement h hmore ih _ =>
      rw [List.append_assoc]
      exact ih _
  | member hbefore hkey hafter h ih =>
      rw [List.append_assoc, skipBlanks_append hbefore]
      exact hfirst _ (by decide) (by decide) (by decide)
  | lastMember h ih => exact ih rest
  | nextMember h hmore ih _ =>
      rw [List.append_assoc]
      exact ih _

/-- A byte that follows an element or a member. -/
def EndsElement (b : UInt8) : Prop :=
  b ∈ utf8 ",]\x7d"

instance (b : UInt8) : Decidable (EndsElement b) :=
  inferInstanceAs (Decidable (b ∈ utf8 ",]\x7d"))

theorem EndsElement.isJsonBlank_eq_false {b : UInt8} (h : EndsElement b) :
    isJsonBlank b = false := by
  have hall : ∀ b ∈ utf8 ",]\x7d", isJsonBlank b = false := by decide +kernel
  exact hall b h

theorem EndsElement.endsNumber {b : UInt8} (h : EndsElement b) (rest : Bytes) :
    EndsNumber (b :: rest) := by
  have hall : ∀ b ∈ utf8 ",]\x7d", isDigitByte b = false ∧ b ≠ '.'.toUInt8 ∧
      b ≠ 'e'.toUInt8 ∧ b ≠ 'E'.toUInt8 := by decide +kernel
  intro c hc
  obtain rfl : b = c := by simpa using hc
  exact hall b h

theorem skipOn_value_scalar {stack : List Bracket} {bs tail rest : Bytes}
    {b : UInt8} (hbs : skipBlanks bs = b :: tail) (hb : StartsScalar b)
    (hscalar : skipScalar (b :: tail) = .ok rest) :
    skipOn .value stack bs = skipOn .more stack rest := by
  rw [skipOn_value hbs, if_neg (hb.ne (by decide)), if_neg (hb.ne (by decide)),
    hscalar]

/-- What it is to pass over a part of JSON and no more, inside some brackets. -/
def PassesOver : JsonPart → Bytes → Prop
  | .value, bs => ∀ stack rest, EndsNumber rest →
      skipOn .value stack (bs ++ rest) = skipOn .more stack rest
  | .element, bs => ∀ bracket outer b rest, EndsElement b →
      skipOn .value (bracket :: outer) (bs ++ b :: rest) =
        skipOn .more (bracket :: outer) (b :: rest)
  | .elements, bs => ∀ outer rest,
      skipOn .value (.list :: outer) (bs ++ ']'.toUInt8 :: rest) =
        skipOn .more outer rest
  | .member, bs => ∀ bracket outer b rest, EndsElement b →
      skipOn .member (bracket :: outer) (bs ++ b :: rest) =
        skipOn .more (bracket :: outer) (b :: rest)
  | .members, bs => ∀ outer rest,
      skipOn .member (.object :: outer) (bs ++ '\x7d'.toUInt8 :: rest) =
        skipOn .more outer rest

/-- Blanks behind a value do not matter as long as a bracket is open. -/
theorem skipOn_more_blanks {bracket : Bracket} {outer : List Bracket}
    {blanks : Bytes} (hblanks : JsonBlanks blanks) {b : UInt8} (hb : EndsElement b)
    (rest : Bytes) :
    skipOn .more (bracket :: outer) (blanks ++ b :: rest) =
      skipOn .more (bracket :: outer) (b :: rest) := by
  have hskip := skipBlanks_append_cons hblanks hb.isJsonBlank_eq_false rest
  have hskip' := skipBlanks_cons hb.isJsonBlank_eq_false rest
  cases bracket with
  | list => rw [skipOn_more_list hskip, skipOn_more_list hskip']
  | object => rw [skipOn_more_object hskip, skipOn_more_object hskip']

/-- Each part of JSON is passed over, whatever is nested in it. -/
theorem JsonForm.passesOver {part : JsonPart} {bs : Bytes} (h : JsonForm part bs) :
    PassesOver part bs := by
  induction h with
  | word h =>
      intro stack rest _
      have hscalar := skipScalar_word h rest
      obtain ⟨b, tail, rfl, hb⟩ := exists_cons_of_word h
      exact skipOn_value_scalar (skipBlanks_cons hb.1 _) hb hscalar
  | number h =>
      intro stack rest hrest
      have hscalar := skipScalar_number h hrest
      obtain ⟨b, tail, rfl, hb⟩ := h.exists_startsScalar
      exact skipOn_value_scalar (skipBlanks_cons hb.1 _) hb hscalar
  | quoted h =>
      intro stack rest _
      exact skipOn_value_scalar (skipBlanks_cons (by decide) _) (by decide)
        (skipScalar_quoted h rest)
  | @emptyList bs h =>
      intro stack rest _
      have htail : skipBlanks (bs ++ [']'.toUInt8] ++ rest) =
          ']'.toUInt8 :: rest := by
        rw [List.append_assoc]
        exact skipBlanks_append_cons h (by decide) rest
      rw [List.cons_append, skipOn_value (skipBlanks_cons (by decide) _),
        if_pos rfl, htail]
      exact if_pos rfl
  | @list bs h ih =>
      intro stack rest _
      obtain ⟨b, tail, htail, hb, -⟩ := h.exists_skipBlanks (']'.toUInt8 :: rest)
      have hinner : skipBlanks (bs ++ [']'.toUInt8] ++ rest) = b :: tail := by
        rwa [List.append_assoc]
      rw [List.cons_append, skipOn_value (skipBlanks_cons (by decide) _),
        if_pos rfl, hinner]
      dsimp only
      rw [if_neg hb, skipOn_value_of_skipBlanks htail, ih]
  | @emptyObject bs h =>
      intro stack rest _
      have htail : skipBlanks (bs ++ ['\x7d'.toUInt8] ++ rest) =
          '\x7d'.toUInt8 :: rest := by
        rw [List.append_assoc]
        exact skipBlanks_append_cons h (by decide) rest
      rw [List.cons_append, skipOn_value (skipBlanks_cons (by decide) _),
        if_neg (by decide), if_pos rfl, htail]
      exact if_pos rfl
  | @object bs h ih =>
      intro stack rest _
      obtain ⟨b, tail, htail, -, hb⟩ := h.exists_skipBlanks ('\x7d'.toUInt8 :: rest)
      have hinner : skipBlanks (bs ++ ['\x7d'.toUInt8] ++ rest) = b :: tail := by
        rwa [List.append_assoc]
      rw [List.cons_append, skipOn_value (skipBlanks_cons (by decide) _),
        if_neg (by decide), if_pos rfl, hinner]
      dsimp only
      rw [if_neg hb, skipOn_member_of_skipBlanks htail, ih]
  | @element before bs after hbefore h hafter ih =>
      intro bracket outer b rest hb
      have hends : EndsNumber (after ++ b :: rest) :=
        endsNumber_append hafter (hb.endsNumber rest)
      obtain ⟨c, tail, hskip, -⟩ := h.exists_skipBlanks (after ++ b :: rest)
      simp only [List.append_assoc]
      rw [skipOn_value_append hbefore hskip, ih _ _ hends,
        skipOn_more_blanks hafter hb]
  | lastElement h ih =>
      intro outer rest
      rw [ih .list outer _ rest (by decide),
        skipOn_more_list (skipBlanks_cons (by decide) rest), if_neg (by decide),
        if_pos rfl]
  | @nextElement bs more h hmore ih ihmore =>
      intro outer rest
      rw [List.append_assoc, List.cons_append, ih .list outer _ _ (by decide),
        skipOn_more_list (skipBlanks_cons (by decide) _), if_pos rfl, ihmore]
  | @member before key after bs hbefore hkey hafter h ih =>
      intro bracket outer b rest hb
      simp only [List.append_assoc, List.cons_append]
      rw [skipOn_member (skipKey_append hbefore hkey hafter _), ih _ _ _ _ hb]
  | lastMember h ih =>
      intro outer rest
      rw [ih .object outer _ rest (by decide),
        skipOn_more_object (skipBlanks_cons (by decide) rest), if_neg (by decide),
        if_pos rfl]
  | @nextMember bs more h hmore ih ihmore =>
      intro outer rest
      rw [List.append_assoc, List.cons_append, ih .object outer _ _ (by decide),
        skipOn_more_object (skipBlanks_cons (by decide) _), if_pos rfl, ihmore]

/-- One value is passed over, whatever follows that is not more of a number. -/
theorem skipValue_append {bs rest : Bytes} (h : JsonForm .value bs)
    (hrest : EndsNumber rest) :
    skipValue (bs ++ rest) = .ok rest := by
  have hpasses : skipOn .value [] (bs ++ rest) = skipOn .more [] rest :=
    h.passesOver [] rest hrest
  rw [skipValue, hpasses, skipOn]

end BoardQuery
