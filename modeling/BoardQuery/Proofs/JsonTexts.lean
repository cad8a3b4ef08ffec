/-
Decoded JSON values.  A text can be spelled in many ways between quotes, each
character as it is, with a short escape or by its code units; whichever way is
chosen, the text is read.  A value that is read as one of a wanted kind ends
where a value that is passed over ends.
-/
import BoardQuery.Proofs.JsonForms
import BoardQuery.Reply

namespace BoardQuery

/-- The letters of the short escapes with the characters that they stand for. -/
def shortEscapes : List (Char × Char) :=
  [('"', '"'), ('\\', '\\'), ('/', '/'), ('b', '\x08'), ('f', '\x0c'), ('n', '\n'),
    ('r', '\r'),
    ('t', '\t')]

def HexDigit (b : UInt8) (n : Nat) : Prop :=
  b ∈ (utf8 "0123456789abcdef")[n]? ∨ b ∈ (utf8 "0123456789ABCDEF")[n]?

inductive HexUnit : Bytes → Nat → Prop
  | mk {a b c d : UInt8} {i j k l : Nat} (ha : HexDigit a i) (hb : HexDigit b j)
      (hc : HexDigit c k) (hd : HexDigit d l) :
      HexUnit [a, b, c, d] (((i * 16 + j) * 16 + k) * 16 + l)

/-- A way to write a character between quotes. -/
inductive SpellsChar : Bytes → Char → Prop
  | plain {c : Char} (hquote : c ≠ '"') (hslash : c ≠ '\\')
      (hcontrol : ¬c.toNat < 0x20) :
      SpellsChar (String.utf8EncodeChar c) c
  | short {letter c : Char} (h : (letter, c) ∈ shortEscapes) :
      SpellsChar ['\\'.toUInt8, letter.toUInt8] c
  | unit {digits : Bytes} {c : Char} (h : HexUnit digits c.toNat) :
      SpellsChar ('\\'.toUInt8 :: 'u'.toUInt8 :: digits) c
  | pair {high low : Bytes} {lead trail : Nat} {c : Char}
      (hhigh : HexUnit high lead)
      (hlow : HexUnit low trail) (hlead : 0xD800 ≤ lead ∧ lead < 0xDC00)
      (htrail : 0xDC00 ≤ trail ∧ trail < 0xE000)
      (hc : c.toNat = 0x10000 + (lead - 0xD800) * 0x400 + (trail - 0xDC00)) :
      SpellsChar ('\\'.toUInt8 :: 'u'.toUInt8 ::
        (high ++ '\\'.toUInt8 :: 'u'.toUInt8 :: low)) c

/-- A way to write characters between quotes, from behind the opening quote on. -/
inductive Spells : Bytes → List Char → Prop
  | close : Spells ['"'.toUInt8] []
  | char {bs rest : Bytes} {c : Char} {cs : List Char} (h : SpellsChar bs c)
      (hrest : Spells rest cs) : Spells (bs ++ rest) (c :: cs)

/-- A way to write a text with its quotes. -/
def SpellsText (bs : Bytes) (text : String) : Prop :=
  ∃ inner, bs = '"'.toUInt8 :: inner ∧ Spells inner text.toList

section Reading

variable {bs rest : Bytes}

theorem HexDigit.hexValue {b : UInt8} {n : Nat} (h : HexDigit b n) :
    hexValue? b = some n := by
  have hof : ∀ {digits : Bytes}, digits.map hexValue? = (List.range 16).map some →
      digits[n]? = some b → hexValue? b = some n := by
    intro digits hdigits hb
    have hvalue := congrArg (fun values => values[n]?) hdigits
    simp only [List.getElem?_map, hb, Option.map_some] at hvalue
    obtain ⟨m, hm, hvalue⟩ := Option.map_eq_some_iff.mp hvalue.symm
    obtain ⟨_, rfl⟩ := List.getElem?_eq_some_iff.mp hm
    rw [← hvalue, List.getElem_range]
  rcases h with hlower | hupper
  · exact hof (by decide +kernel) hlower
  · exact hof (by decide +kernel) hupper

theorem HexUnit.readUnit_append {digits : Bytes} {n : Nat} (h : HexUnit digits n)
    (rest : Bytes) :
    readUnit (digits ++ rest) = .ok (n, rest) := by
  obtain ⟨ha, hb, hc, hd⟩ := h
  simp [readUnit, ha.hexValue, hb.hexValue, hc.hexValue, hd.hexValue]

theorem readTextOn_shortEscape {letter c : Char} (h : (letter, c) ∈ shortEscapes)
    (done rest : Bytes) :
    readTextOn ⟨none, done⟩ ('\\'.toUInt8 :: letter.toUInt8 :: rest) =
      readTextOn ⟨none, (String.utf8EncodeChar c).reverse ++ done⟩ rest := by
  have hall : ∀ p ∈ shortEscapes, p.1.toUInt8 ≠ 'u'.toUInt8 ∧
      ∃ b ∈ shortEscape? p.1.toUInt8, String.utf8EncodeChar p.2 = [b] := by
        decide +kernel
  obtain ⟨hletter, b, hb, hc⟩ := hall _ h
  rw [readTextOn_short hb hletter, hc]
  rfl

/-- However a character is spelled, the reader takes its bytes. -/
theorem SpellsChar.readTextOn_append {c : Char} (h : SpellsChar bs c)
    (done rest : Bytes) :
    readTextOn ⟨none, done⟩ (bs ++ rest) =
      readTextOn ⟨none, (String.utf8EncodeChar c).reverse ++ done⟩ rest := by
  cases h with
  | plain hquote hslash hcontrol =>
      exact readTextOn_plain (plain_of_mem_utf8EncodeChar hquote hslash hcontrol)
        done rest
  | short h => exact readTextOn_shortEscape h done rest
  | unit h => exact readTextOn_unit (h.readUnit_append rest) done
  | @pair high low lead trail c hhigh hlow hlead htrail hc =>
      have hlater : readPiece ('\\'.toUInt8 :: 'u'.toUInt8 :: (low ++ rest)) =
          .ok (.unit trail, rest) := readPiece_unit (hlow.readUnit_append rest)
      have hfirst : Draft.add ⟨none, done⟩ (.unit lead) = .ok ⟨some lead, done⟩ :=
        if_pos hlead
      have hsecond : Draft.add ⟨some lead, done⟩ (.unit trail) =
          .ok ⟨none, (String.utf8EncodeChar c).reverse ++ done⟩ := by
        simp only [Draft.add, if_pos htrail, Draft.push, ← hc, Char.ofNat_toNat]
      simp only [List.cons_append, List.append_assoc]
      rw [readTextOn_of_piece (readPiece_unit (hhigh.readUnit_append _)) (by simp)
        hfirst, readTextOn_of_piece hlater (by simp) hsecond]

theorem Spells.readTextOn_append {cs : List Char} (h : Spells bs cs)
    (done rest : Bytes) :
    readTextOn ⟨none, done⟩ (bs ++ rest) =
      (Draft.finish ⟨none, (cs.flatMap String.utf8EncodeChar).reverse ++ done⟩).map
        fun text => (text, rest) := by
  induction h generalizing done with
  | close => exact readTextOn_close _ rest
  | char h _ ih =>
      rw [List.append_assoc, h.readTextOn_append, ih]
      simp

theorem Spells.readText_append {text : String} (h : Spells bs text.toList)
    (rest : Bytes) :
    readText (bs ++ rest) = .ok (text, rest) := by
  have hfinish : Draft.finish ⟨none, (utf8 text).reverse ++ []⟩ = .ok text := by
    simp [Draft.finish]
  rw [readText, h.readTextOn_append, ← utf8_eq_flatMap, hfinish]
  rfl

theorem readValue_append {blanks : Bytes} (hblanks : JsonBlanks blanks)
    (kind : Kind) (bs : Bytes) :
    readValue kind (blanks ++ bs) = readValue kind bs := by
  have hskip := skipBlanks_append hblanks bs
  cases kind <;> simp only [readValue, readCount, hskip]

/-- Bytes that are read as a value of a wanted kind, whatever follows that is
not more of a number. -/
def StandsFor (kind : Kind) (bs : Bytes) (value : Value) : Prop :=
  ∀ rest, EndsNumber rest → readValue kind (bs ++ rest) = .ok (value, rest)

theorem standsFor_count (n : UInt64) :
    StandsFor .count (decimal n.toNat) (.count n) :=
  fun _ hrest => readValue_json (.count n) hrest

theorem SpellsText.standsFor {text : String} (h : SpellsText bs text) :
    StandsFor .text bs (.text text) := by
  obtain ⟨inner, rfl, hspells⟩ := h
  intro rest _
  rw [List.cons_append, readValue, skipBlanks_cons (by decide)]
  dsimp only
  rw [if_pos rfl, hspells.readText_append]
  rfl

end Reading

section Forms

variable {bs rest : Bytes} {cs : List Char}

theorem jsonQuoted_plain {plain : Bytes}
    (hplain : ∀ b ∈ plain, b ≠ '"'.toUInt8 ∧ b ≠ '\\'.toUInt8 ∧ ¬b < 0x20)
    (hrest : JsonQuoted rest) : JsonQuoted (plain ++ rest) := by
  induction plain with
  | nil => exact hrest
  | cons b plain ih =>
      obtain ⟨⟨hquote, hslash, hcontrol⟩, hplain⟩ := List.forall_mem_cons.mp hplain
      exact @JsonQuoted.piece [b] _ (.plain hquote hslash hcontrol) (ih hplain)

theorem HexUnit.jsonPiece {digits : Bytes} {n : Nat} (h : HexUnit digits n) :
    JsonPiece ('\\'.toUInt8 :: 'u'.toUInt8 :: digits) := by
  have hlower : ∀ b ∈ utf8 "0123456789abcdef",
      b ∈ utf8 "0123456789abcdefABCDEF" := by
    decide +kernel
  have hupper : ∀ b ∈ utf8 "0123456789ABCDEF",
      b ∈ utf8 "0123456789abcdefABCDEF" := by
    decide +kernel
  have hdigit : ∀ {b m}, HexDigit b m → b ∈ utf8 "0123456789abcdefABCDEF" := by
    rintro b m (hb | hb)
    · exact hlower b (List.mem_of_getElem? hb)
    · exact hupper b (List.mem_of_getElem? hb)
  obtain ⟨ha, hb, hc, hd⟩ := h
  refine .unit rfl ?_
  simp only [List.forall_mem_cons]
  exact ⟨hdigit ha, hdigit hb, hdigit hc, hdigit hd, nofun⟩

/-- A character is well-formed however it is spelled. -/
theorem SpellsChar.jsonQuoted {c : Char} (h : SpellsChar bs c)
    (hrest : JsonQuoted rest) :
    JsonQuoted (bs ++ rest) := by
  cases h with
  | plain hquote hslash hcontrol =>
      exact jsonQuoted_plain (plain_of_mem_utf8EncodeChar hquote hslash hcontrol)
        hrest
  | short h =>
      have hall : ∀ p ∈ shortEscapes, p.1.toUInt8 ∈ utf8 "\"\\/bfnrt" := by
        decide +kernel
      exact .piece (.short (hall _ h)) hrest
  | unit h => exact .piece h.jsonPiece hrest
  | pair hhigh hlow _ _ _ =>
      have hpair := JsonQuoted.piece hhigh.jsonPiece (.piece hlow.jsonPiece hrest)
      simpa only [List.cons_append, List.append_assoc] using hpair

theorem Spells.jsonQuoted (h : Spells bs cs) : JsonQuoted bs := by
  induction h with
  | close => exact .close
  | char h _ ih => exact h.jsonQuoted ih

/-- A text is a well-formed value however it is spelled. -/
theorem SpellsText.jsonForm {text : String} (h : SpellsText bs text) :
    JsonForm .value bs := by
  obtain ⟨inner, rfl, hspells⟩ := h
  exact .quoted hspells.jsonQuoted

theorem jsonForm_decimal (n : Nat) : JsonForm .value (decimal n) := by
  have hall : ∀ b : UInt8, isDigitByte b = true →
    b ∈ utf8 "0123456789" := by decide +kernel
  have hwhole : JsonWhole (decimal n) := by
    obtain ⟨b, tail, hdecimal, -, hzero⟩ := exists_decimal_eq_cons n
    by_cases hb : b = '0'.toUInt8
    · rw [hzero hb, decimal_of_lt (by decide)]
      exact .zero
    · have hdigits : JsonDigits (decimal n) :=
        ⟨by simp [hdecimal], fun c hc => hall c (isDigitByte_of_mem_decimal n c hc)⟩
      exact .digits hdigits (by simpa [hdecimal] using hb)
  have hnumber : JsonNumber ([] ++ (decimal n ++ ([] ++ []))) :=
    .mk (by simp) hwhole .absent .absent
  rw [List.nil_append, List.append_nil, List.append_nil] at hnumber
  exact .number hnumber

/-- A text without quotes, backslashes and controls is a spelling of itself. -/
theorem Spells.utf8_append {text : String} (h : Spells rest cs)
    (hplain : ∀ c ∈ text.toList, c ≠ '"' ∧ c ≠ '\\' ∧ ¬c.toNat < 0x20) :
    Spells (utf8 text ++ rest) (text.toList ++ cs) := by
  rw [utf8_eq_flatMap]
  generalize text.toList = plain at hplain
  induction plain with
  | nil => exact h
  | cons c plain ih =>
      obtain ⟨⟨hquote, hslash, hcontrol⟩, hplain⟩ := List.forall_mem_cons.mp hplain
      rw [List.flatMap_cons, List.append_assoc]
      exact .char (.plain hquote hslash hcontrol) (ih hplain)

end Forms

section Agreement

variable {bs tail rest : Bytes} {b : UInt8}

/-- A text that is read ends where one that is passed over ends. -/
theorem skipText_of_readTextOn {draft : Draft} {text : String}
    (h : readTextOn draft bs = .ok (text, rest)) : skipText bs = .ok rest := by
  fun_induction readTextOn draft bs with
  | case1 draft bs fault hpiece => contradiction
  | case2 draft bs after hpiece =>
      cases hfinish : draft.finish with
      | error fault => simp [hfinish, Except.map] at h
      | ok text' =>
          simp only [hfinish, Except.map, Except.ok.injEq, Prod.mk.injEq] at h
          rw [skipText_of_close hpiece, h.2]
  | case3 draft bs piece after hopen hpiece fault hadd => contradiction
  | case4 draft bs piece after hopen hpiece draft' hadd ih =>
      rw [skipText_of_piece hpiece hopen]
      exact ih h

theorem skipNumber_of_readNumber {n? : Option UInt64}
    (h : readNumber bs = .ok (n?, rest)) :
    skipNumber bs = .ok rest := by
  unfold readNumber at h
  cases hshape : readShape bs with
  | error fault => simp [hshape, bind, Except.bind] at h
  | ok pair =>
      cases hvalue : pair.1.value with
      | error fault => simp [hshape, hvalue, bind, Except.bind] at h
      | ok n? =>
          simp only [hshape, hvalue, bind, Except.bind, pure, Except.pure,
            Except.ok.injEq, Prod.mk.injEq] at h
          rw [skipNumber, hshape, ← h.2]

theorem skipValue_of_scalar (hbs : skipBlanks bs = b :: tail) (hb : StartsScalar b)
    (hscalar : skipScalar (b :: tail) = .ok rest) : skipValue bs = .ok rest := by
  rw [skipValue, skipOn_value_scalar hbs hb hscalar, skipOn]

theorem skipValue_of_readCount {n : UInt64} (h : readCount bs = .ok (n, rest)) :
    skipValue bs = .ok rest := by
  unfold readCount at h
  split at h
  · contradiction
  · next b tail hbs =>
      split at h
      · next hb =>
          split at h
          · contradiction
          · contradiction
          · next n' rest' hnumber =>
              obtain ⟨-, rfl⟩ := Prod.mk.inj (Except.ok.inj h)
              refine skipValue_of_scalar hbs (startsScalar_of_number b hb) ?_
              rw [skipScalar_eq_skipNumber hb, skipNumber_of_readNumber hnumber]
      · contradiction

/-- A value that is read as one of a wanted kind ends where a value that is
passed over ends. -/
theorem skipValue_of_readValue {kind : Kind} {value : Value}
    (h : readValue kind bs = .ok (value, rest)) : skipValue bs = .ok rest := by
  cases kind with
  | count =>
      obtain ⟨⟨n, after⟩, hcount, heq⟩ := exists_of_map_eq_ok h
      obtain rfl : after = rest := (Prod.mk.inj heq).2
      exact skipValue_of_readCount hcount
  | optionalCount =>
      simp only [readValue] at h
      split at h
      · contradiction
      · next b tail hbs =>
          split at h
          · next hb =>
              obtain ⟨after, hword, heq⟩ := exists_of_map_eq_ok h
              obtain rfl : after = rest := (Prod.mk.inj heq).2
              refine skipValue_of_scalar hbs (by rw [hb]; decide) ?_
              rw [skipScalar, if_pos hb, hword]
          · obtain ⟨⟨n, after⟩, hcount, heq⟩ := exists_of_map_eq_ok h
            obtain rfl : after = rest := (Prod.mk.inj heq).2
            rw [skipValue, ← skipOn_value_of_skipBlanks hbs]
            exact skipValue_of_readCount hcount
  | text =>
      simp only [readValue] at h
      split at h
      · contradiction
      · next b tail hbs =>
          split at h
          · next hb =>
              obtain ⟨⟨text, after⟩, htext, heq⟩ := exists_of_map_eq_ok h
              obtain rfl : after = rest := (Prod.mk.inj heq).2
              refine skipValue_of_scalar hbs (by rw [hb]; decide) ?_
              rw [hb, skipScalar, if_neg (by decide), if_neg (by decide),
                if_neg (by decide), if_pos rfl, skipText_of_readTextOn htext]
          · contradiction

/-- So a well-formed value is read to its end or not at all. -/
theorem rest_eq_of_readValue {kind : Kind} {value : Value} {after : Bytes}
    (hbs : JsonForm .value bs) (hrest : EndsNumber rest)
    (h : readValue kind (bs ++ rest) = .ok (value, after)) : after = rest :=
  Except.ok.inj ((skipValue_of_readValue h).symm.trans (skipValue_append hbs hrest))

end Agreement

end BoardQuery
