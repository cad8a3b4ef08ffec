/-
What a numeral is.  The reader of counts goes through the digits one by one and
stops at the first fault; here it is said which texts are numerals, with which
value, and which fault every other text has.
-/
import BoardQuery.Text.Numeral
import Mathlib.Algebra.Group.Nat.Defs
import Mathlib.Logic.Basic

namespace BoardQuery

/-- Digits with an optional plus sign in front, at least one, whose value in
decimal is a 64-bit number. -/
def Numeral (text : List Char) (n : UInt64) : Prop :=
  ∃ digits, (text = digits ∨ text = '+' :: digits) ∧ digits ≠ [] ∧
    (∀ c ∈ digits, c.isDigit = true) ∧ Nat.ofDigitChars 10 digits 0 = n.toNat

/-- The first fault among characters that are to be digits and that follow those
of `value`. -/
inductive FaultyDigits (value : Nat) : List Char → NumeralFault → Prop
  | badDigit {digits rest : List Char} {c : Char}
      (hdigits : ∀ d ∈ digits, d.isDigit = true)
      (hfits : Nat.ofDigitChars 10 digits value < 2 ^ 64) (hc : c.isDigit = false) :
      FaultyDigits value (digits ++ c :: rest) .badDigit
  | tooLarge {digits rest : List Char} (hdigits : ∀ d ∈ digits, d.isDigit = true)
      (hexceeds : 2 ^ 64 ≤ Nat.ofDigitChars 10 digits value) :
      FaultyDigits value (digits ++ rest) .tooLarge

/-- The fault of a text that is not a numeral. -/
inductive FaultyNumeral : List Char → NumeralFault → Prop
  | empty : FaultyNumeral [] .empty
  | sign : FaultyNumeral ['+'] .badDigit
  | signed {text : List Char} {fault : NumeralFault}
      (h : FaultyDigits 0 text fault) :
      FaultyNumeral ('+' :: text) fault
  | unsigned {text : List Char} {fault : NumeralFault}
      (hsign : text.head? ≠ some '+')
      (h : FaultyDigits 0 text fault) : FaultyNumeral text fault

/-- One character is read as a digit that still fits, or not at all. -/
theorem readDigits_cons (value : Nat) (c : Char) (rest : List Char) :
    readDigits value (c :: rest) =
      if c.isDigit then
        if 10 * value + (c.toNat - '0'.toNat) < 2 ^ 64 then
          readDigits (10 * value + (c.toNat - '0'.toNat)) rest
        else .error .tooLarge
      else .error .badDigit := by
  delta readDigits readDigits._f
  dsimp only [List.brecOn]
  by_cases hc : c.isDigit = true
  · rw [digit?, if_pos hc, if_pos hc]
  · rw [digit?, if_neg hc, if_neg hc]

theorem le_ofDigitChars (value : Nat) (digits : List Char) :
    value ≤ Nat.ofDigitChars 10 digits value := by
  rw [Nat.ofDigitChars_eq_ofDigitChars_zero]
  have hshift : value ≤ 10 ^ digits.length * value :=
    Nat.le_mul_of_pos_left value (Nat.pow_pos (by decide))
  exact Nat.le_trans hshift (Nat.le_add_right _ _)

section Digits

variable {value : Nat} {digits rest : List Char}

theorem readDigits_append (hdigits : ∀ d ∈ digits, d.isDigit = true)
    (hfits : Nat.ofDigitChars 10 digits value < 2 ^ 64) :
    readDigits value (digits ++ rest) =
      readDigits (Nat.ofDigitChars 10 digits value) rest := by
  induction digits generalizing value with
  | nil => rfl
  | cons d digits ih =>
      obtain ⟨hd, hrest⟩ := List.forall_mem_cons.mp hdigits
      rw [Nat.ofDigitChars_cons] at hfits ⊢
      have hstep := Nat.lt_of_le_of_lt (le_ofDigitChars _ digits) hfits
      rw [List.cons_append, readDigits_cons, if_pos hd, if_pos hstep]
      exact ih hrest hfits

/-- Digits that do not fit are not read to their end. -/
theorem readDigits_append_of_exceeds (hdigits : ∀ d ∈ digits, d.isDigit = true)
    (hvalue : value < 2 ^ 64)
    (hexceeds : 2 ^ 64 ≤ Nat.ofDigitChars 10 digits value) :
    readDigits value (digits ++ rest) = .error .tooLarge := by
  induction digits generalizing value with
  | nil => exact absurd hvalue (Nat.not_lt.mpr hexceeds)
  | cons d digits ih =>
      obtain ⟨hd, hrest⟩ := List.forall_mem_cons.mp hdigits
      rw [Nat.ofDigitChars_cons] at hexceeds
      rw [List.cons_append, readDigits_cons, if_pos hd]
      by_cases hstep : 10 * value + (d.toNat - '0'.toNat) < 2 ^ 64
      · rw [if_pos hstep]
        exact ih hrest hstep hexceeds
      · rw [if_neg hstep]

theorem FaultyDigits.readDigits_eq {fault : NumeralFault}
    (h : FaultyDigits value digits fault) (hvalue : value < 2 ^ 64) :
    readDigits value digits = .error fault := by
  cases h with
  | badDigit hdigits hfits hc =>
      rw [readDigits_append hdigits hfits, readDigits_cons, if_neg (by simp [hc])]
  | tooLarge hdigits hexceeds =>
      exact readDigits_append_of_exceeds hdigits hvalue hexceeds

theorem FaultyDigits.cons {d : Char} {fault : NumeralFault} (hd : d.isDigit = true)
    (h : FaultyDigits (10 * value + (d.toNat - '0'.toNat)) rest fault) :
    FaultyDigits value (d :: rest) fault := by
  cases h with
  | @badDigit digits after c hdigits hfits hc =>
      exact .badDigit (List.forall_mem_cons.mpr ⟨hd, hdigits⟩)
        (Nat.ofDigitChars_cons ▸ hfits) hc
  | @tooLarge digits after hdigits hexceeds =>
      exact @tooLarge value (d :: digits) after
        (List.forall_mem_cons.mpr ⟨hd, hdigits⟩)
        (Nat.ofDigitChars_cons ▸ hexceeds)

/-- Characters are digits that fit, or there is a first fault among them. -/
theorem digits_or_faulty (text : List Char) (hvalue : value < 2 ^ 64) :
    (∀ c ∈ text, c.isDigit = true) ∧ Nat.ofDigitChars 10 text value < 2 ^ 64 ∨
      ∃ fault, FaultyDigits value text fault := by
  induction text generalizing value with
  | nil => exact .inl ⟨by simp, hvalue⟩
  | cons c rest ih =>
      cases hc : c.isDigit with
      | false =>
          exact .inr ⟨_, @FaultyDigits.badDigit value [] rest c (by simp) hvalue hc⟩
      | true =>
          by_cases hstep : 10 * value + (c.toNat - '0'.toNat) < 2 ^ 64
          · rcases ih hstep with ⟨hrest, hfits⟩ | ⟨fault, h⟩
            · rw [← Nat.ofDigitChars_cons] at hfits
              exact .inl ⟨List.forall_mem_cons.mpr ⟨hc, hrest⟩, hfits⟩
            · exact .inr ⟨fault, h.cons hc⟩
          · refine .inr ⟨_, @FaultyDigits.tooLarge value [c] rest
              (by simpa using hc) ?_⟩
            rw [Nat.ofDigitChars_cons, Nat.ofDigitChars_nil]
            exact Nat.le_of_not_lt hstep

end Digits

section Sign

variable {text : List Char} {n : UInt64} {fault : NumeralFault}

theorem readNumeral_signed (hne : text ≠ []) :
    readNumeral ('+' :: text) = (readDigits 0 text).map UInt64.ofNat := by
  cases text with
  | nil => exact absurd rfl hne
  | cons c rest => rfl

theorem readNumeral_unsigned (hne : text ≠ []) (hsign : text.head? ≠ some '+') :
    readNumeral text = (readDigits 0 text).map UInt64.ofNat := by
  unfold readNumeral
  split
  · exact absurd rfl hne
  · simp at hsign
  · simp at hsign
  · rfl

theorem FaultyDigits.ne_nil (h : FaultyDigits 0 text fault) : text ≠ [] := by
  rintro rfl
  have hread := h.readDigits_eq (by decide)
  contradiction

theorem head?_ne_plus (h : ∀ c ∈ text, c.isDigit = true) :
    text.head? ≠ some '+' := by
  intro hhead
  exact absurd (h '+' (List.mem_of_head? hhead)) (by decide)

theorem Numeral.readNumeral_eq (h : Numeral text n) : readNumeral text = .ok n := by
  obtain ⟨digits, htext, hne, hdigits, hvalue⟩ := h
  have hread : (readDigits 0 digits).map UInt64.ofNat = .ok n := by
    have hfits : Nat.ofDigitChars 10 digits 0 < 2 ^ 64 := hvalue ▸ n.toNat_lt
    have hend : readDigits n.toNat [] = .ok n.toNat := rfl
    rw [← List.append_nil digits, readDigits_append hdigits hfits, hvalue, hend,
      Except.map, UInt64.ofNat_toNat]
  rcases htext with rfl | rfl
  · rw [readNumeral_unsigned hne (head?_ne_plus hdigits), hread]
  · rw [readNumeral_signed hne, hread]

theorem numeral_toString (n : UInt64) : Numeral (toString n).toList n := by
  have hdigits : (toString n).toList = Nat.toDigits 10 n.toNat := by
    change (toString n.toNat).toList = Nat.toDigits 10 n.toNat
    rw [Nat.toString_eq_ofList_toDigits, String.toList_ofList]
  rw [hdigits]
  refine ⟨_, .inl rfl, Nat.toDigits_ne_nil, fun c hc => ?_, ?_⟩
  · exact Nat.isDigit_of_mem_toDigits (by decide) (by decide) hc
  · exact Nat.ofDigitChars_toDigits (by decide) (by decide)

theorem FaultyNumeral.readNumeral_eq (h : FaultyNumeral text fault) :
    readNumeral text = .error fault := by
  cases h with
  | empty => rfl
  | sign => rfl
  | signed h =>
      rw [readNumeral_signed h.ne_nil, h.readDigits_eq (by decide)]
      rfl
  | unsigned hsign h =>
      rw [readNumeral_unsigned h.ne_nil hsign, h.readDigits_eq (by decide)]
      rfl

theorem numeral_or_faulty (text : List Char) :
    (∃ n, Numeral text n) ∨ ∃ fault, FaultyNumeral text fault := by
  have hnumeral : ∀ {digits : List Char}, (∀ c ∈ digits, c.isDigit = true) →
    digits ≠ [] →
      Nat.ofDigitChars 10 digits 0 < 2 ^ 64 → text = digits ∨ text = '+' :: digits →
        ∃ n, Numeral text n := by
    intro digits hdigits hne hfits htext
    refine ⟨UInt64.ofNat (Nat.ofDigitChars 10 digits 0), digits, htext, hne,
      hdigits, ?_⟩
    rw [UInt64.toNat_ofNat_of_lt' hfits]
  by_cases hsign : text.head? = some '+'
  · obtain ⟨digits, rfl⟩ := List.head?_eq_some_iff.mp hsign
    rcases eq_or_ne digits [] with rfl | hne
    · exact .inr ⟨_, .sign⟩
    · rcases digits_or_faulty digits (Nat.two_pow_pos 64) with
        ⟨hdigits, hfits⟩ | ⟨fault, h⟩
      · exact .inl (hnumeral hdigits hne hfits (.inr rfl))
      · exact .inr ⟨fault, .signed h⟩
  · rcases eq_or_ne text [] with rfl | hne
    · exact .inr ⟨_, .empty⟩
    · rcases digits_or_faulty text (Nat.two_pow_pos 64) with
        ⟨hdigits, hfits⟩ | ⟨fault, h⟩
      · exact .inl (hnumeral hdigits hne hfits (.inl rfl))
      · exact .inr ⟨fault, .unsigned hsign h⟩

end Sign

end BoardQuery
