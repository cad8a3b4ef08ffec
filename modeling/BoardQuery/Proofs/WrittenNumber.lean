/-
Counts read back.  A count is written in decimal without leading zeros, and the
reader of JSON numbers takes the digits for that count, up to a byte that no
number goes on with.
-/
import BoardQuery.Json.Record
import Mathlib.Data.List.Basic

namespace BoardQuery

def decimal (n : Nat) : Bytes :=
  utf8 (toString n)

def digitByte (d : Nat) : UInt8 :=
  UInt8.ofNat (0x30 + d)

theorem utf8EncodeChar_digitChar :
    ∀ d : Fin 10, String.utf8EncodeChar (Nat.digitChar d) = [digitByte d] := by
  decide

theorem toNat_digitByte {d : Nat} (hd : d < 10) :
    (digitByte d).toNat = 0x30 + d := by
  rw [digitByte, UInt8.toNat_ofNat']
  omega

theorem isDigitByte_digitByte {d : Nat} (hd : d < 10) :
    isDigitByte (digitByte d) = true := by
  have hlow : (0x30 : UInt8) ≤ digitByte d := by
    rw [UInt8.le_iff_toNat_le, toNat_digitByte hd]
    exact Nat.le_add_right 0x30 d
  have hhigh : digitByte d ≤ 0x39 := by
    rw [UInt8.le_iff_toNat_le, toNat_digitByte hd]
    exact Nat.add_le_add_left (Nat.le_of_lt_succ hd) 0x30
  simp [isDigitByte, hlow, hhigh]

theorem skipBlanks_cons {b : UInt8} (hb : isJsonBlank b = false) (rest : Bytes) :
    skipBlanks (b :: rest) = b :: rest := by
  simp [skipBlanks, hb]

theorem skipBlanks_cons_of_digit {b : UInt8} (hdigit : isDigitByte b = true)
    (rest : Bytes) :
    skipBlanks (b :: rest) = b :: rest := by
  have hblank : isJsonBlank b = false := by
    by_contra h
    simp only [isJsonBlank, Bool.not_eq_false, Bool.or_eq_true, beq_iff_eq] at h
    rcases h with ((rfl | rfl) | rfl) | rfl <;> exact absurd hdigit (by decide)
  exact skipBlanks_cons hblank rest

theorem decimal_of_lt {n : Nat} (hn : n < 10) : decimal n = [digitByte n] := by
  rw [decimal, Nat.toString_eq_ofList_toDigits, utf8_ofList,
    Nat.toDigits_of_lt_base hn, List.flatMap_singleton]
  exact utf8EncodeChar_digitChar ⟨n, hn⟩

theorem decimal_of_le {n : Nat} (hn : 10 ≤ n) :
    decimal n = decimal (n / 10) ++ [digitByte (n % 10)] := by
  rw [decimal, decimal, Nat.toString_eq_ofList_toDigits,
    Nat.toString_eq_ofList_toDigits, utf8_ofList, utf8_ofList,
    Nat.toDigits_of_base_le (by decide) hn, List.flatMap_append,
    List.flatMap_singleton]
  exact congrArg _ (utf8EncodeChar_digitChar ⟨n % 10, Nat.mod_lt n (by decide)⟩)

/-- Induction over the digits of a number, the last one first. -/
theorem decimal_induction {motive : Nat → Prop} (digit : ∀ n, n < 10 → motive n)
    (more : ∀ n, 10 ≤ n → motive (n / 10) → motive n) (n : Nat) : motive n := by
  induction n using Nat.strongRecOn with
  | ind n ih =>
      by_cases hn : n < 10
      · exact digit n hn
      · exact more n (Nat.not_lt.mp hn) (ih (n / 10) (by omega))

theorem isDigitByte_of_mem_decimal (n : Nat) :
    ∀ b ∈ decimal n, isDigitByte b = true := by
  induction n using decimal_induction with
  | digit n hn =>
      rw [decimal_of_lt hn, List.forall_mem_singleton]
      exact isDigitByte_digitByte hn
  | more n hn ih =>
      rw [decimal_of_le hn, List.forall_mem_append, List.forall_mem_singleton]
      exact ⟨ih, isDigitByte_digitByte (Nat.mod_lt n (by decide))⟩

/-- A number starts with a digit, and only zero starts with a zero. -/
theorem exists_decimal_eq_cons (n : Nat) :
    ∃ b tail, decimal n = b :: tail ∧ isDigitByte b = true ∧
      (b = '0'.toUInt8 → n = 0) := by
  induction n using decimal_induction with
  | digit n hn =>
      refine ⟨digitByte n, [], decimal_of_lt hn, isDigitByte_digitByte hn, ?_⟩
      intro hzero
      have hcode : (digitByte n).toNat = 0x30 := by
        rw [hzero]
        decide
      rw [toNat_digitByte hn] at hcode
      omega
  | more n hn ih =>
      obtain ⟨b, tail, hdecimal, hdigit, hzero⟩ := ih
      refine ⟨b, tail ++ [digitByte (n % 10)], ?_, hdigit, fun hb => ?_⟩
      · rw [decimal_of_le hn, hdecimal, List.cons_append]
      · have := hzero hb
        omega

section Significand

variable {value filled : Nat}

theorem fillSignificand_cons {b : UInt8} {next : Nat}
    (hnext : 10 * value + (b.toNat - 0x30) = next) (hfits : next < Nat.pow 2 64)
    (rest : Bytes) :
    fillSignificand value (b :: rest) =
      ((fillSignificand next rest).1, (fillSignificand next rest).2 + 1) := by
  subst hnext
  simp only [fillSignificand, if_pos hfits]

/-- Digits that were all taken are followed by the others. -/
theorem fillSignificand_append {digits : Bytes}
    (h : fillSignificand value digits = (filled, digits.length)) (more : Bytes) :
    fillSignificand value (digits ++ more) =
      ((fillSignificand filled more).1,
        digits.length + (fillSignificand filled more).2) := by
  induction digits generalizing value with
  | nil =>
      obtain ⟨rfl, _⟩ := Prod.mk.inj h
      simp
  | cons b digits ih =>
      by_cases hfits : 10 * value + (b.toNat - 0x30) < Nat.pow 2 64
      · rw [fillSignificand_cons rfl hfits, Prod.mk.injEq] at h
        have hdigits := ih (Prod.ext h.1 (Nat.succ.inj h.2))
        rw [List.cons_append, fillSignificand_cons rfl hfits, hdigits,
          List.length_cons]
        ext
        · rfl
        · simp only
          omega
      · simp only [fillSignificand, if_neg hfits, Prod.mk.injEq,
          List.length_cons] at h
        omega

/-- The digits of a number below 2^64 have that number as their value. -/
theorem fillSignificand_decimal (n : Nat) (hn : n < Nat.pow 2 64) :
    fillSignificand 0 (decimal n) = (n, (decimal n).length) := by
  induction n using decimal_induction with
  | digit n hlt =>
      have hnext : 10 * 0 + ((digitByte n).toNat - 0x30) = n := by
        rw [toNat_digitByte hlt]
        omega
      rw [decimal_of_lt hlt, fillSignificand_cons hnext hn]
      rfl
  | more n hle ih =>
      have hnext : 10 * (n / 10) + ((digitByte (n % 10)).toNat - 0x30) = n := by
        rw [toNat_digitByte (Nat.mod_lt n (by decide))]
        omega
      rw [decimal_of_le hle, fillSignificand_append (ih (by omega)),
        fillSignificand_cons hnext hn, List.length_append]
      rfl

end Significand

/-- No number goes on with these bytes. -/
def EndsNumber (rest : Bytes) : Prop :=
  ∀ b ∈ rest.head?, isDigitByte b = false ∧ b ≠ '.'.toUInt8 ∧ b ≠ 'e'.toUInt8 ∧
    b ≠ 'E'.toUInt8

section Reading

variable {rest : Bytes}

theorem spanDigits_append {digits : Bytes}
    (hdigits : ∀ b ∈ digits, isDigitByte b = true)
    (hrest : ∀ b ∈ rest.head?, isDigitByte b = false) :
    spanDigits (digits ++ rest) = (digits, rest) := by
  have hstop : rest.takeWhile isDigitByte = [] ∧
      rest.dropWhile isDigitByte = rest := by
    cases rest with
    | nil => exact ⟨rfl, rfl⟩
    | cons b rest => simp [hrest b rfl]
  rw [spanDigits, List.takeWhile_append_of_pos hdigits,
    List.dropWhile_append_of_pos hdigits, hstop.1, hstop.2, List.append_nil]

theorem readFraction_of_endsNumber (hrest : EndsNumber rest) :
    readFraction rest = .ok (none, rest) := by
  cases rest with
  | nil => rfl
  | cons b rest => simp [readFraction, (hrest b rfl).2.1]

theorem readExponent_of_endsNumber (hrest : EndsNumber rest) :
    readExponent rest = .ok (none, rest) := by
  cases rest with
  | nil => rfl
  | cons b rest => simp [readExponent, (hrest b rfl).2.2.1, (hrest b rfl).2.2.2]

theorem readWhole_decimal (n : Nat) (hrest : EndsNumber rest) :
    readWhole (decimal n ++ rest) = .ok (decimal n, rest) := by
  obtain ⟨b, tail, hdecimal, _, hzero⟩ := exists_decimal_eq_cons n
  have hdigits := isDigitByte_of_mem_decimal n
  rw [hdecimal, List.forall_mem_cons] at hdigits
  rw [hdecimal, List.cons_append, readWhole,
    spanDigits_append hdigits.2 fun b hb => (hrest b hb).1]
  by_cases hb : b = '0'.toUInt8
  · have htail : tail = [] := by
      rw [hzero hb, decimal_of_lt (by decide)] at hdecimal
      exact (List.cons.inj hdecimal).2.symm
    simp [hb, htail]
  · simp [hb, hdigits.1]

theorem value_decimal (n : UInt64) :
    NumberShape.value ⟨false, decimal n.toNat, none, none⟩ = .ok (some n) := by
  simp [NumberShape.value, fillSignificand_decimal n.toNat n.toNat_lt]

theorem readNumber_decimal (n : UInt64) (hrest : EndsNumber rest) :
    readNumber (decimal n.toNat ++ rest) = .ok (some n, rest) := by
  obtain ⟨b, tail, hdecimal, hdigit, _⟩ := exists_decimal_eq_cons n.toNat
  have hminus : b ≠ '-'.toUInt8 := by
    rintro rfl
    exact absurd hdigit (by decide)
  have hunsigned : readUnsigned false (decimal n.toNat ++ rest) =
      .ok (⟨false, decimal n.toNat, none, none⟩, rest) := by
    simp [readUnsigned, readWhole_decimal n.toNat hrest,
      readFraction_of_endsNumber hrest, readExponent_of_endsNumber hrest, bind,
      Except.bind, pure, Except.pure]
  have hshape : readShape (decimal n.toNat ++ rest) =
      .ok (⟨false, decimal n.toNat, none, none⟩, rest) := by
    rw [hdecimal, List.cons_append] at hunsigned ⊢
    rw [readShape, if_neg hminus, hunsigned]
  simp [readNumber, hshape, value_decimal, bind, Except.bind, pure, Except.pure]

theorem readCount_decimal (n : UInt64) (hrest : EndsNumber rest) :
    readCount (decimal n.toNat ++ rest) = .ok (n, rest) := by
  have hnumber := readNumber_decimal n hrest
  obtain ⟨b, tail, hdecimal, hdigit, _⟩ := exists_decimal_eq_cons n.toNat
  rw [hdecimal, List.cons_append] at hnumber ⊢
  rw [readCount, skipBlanks_cons_of_digit hdigit]
  simp [hdigit, hnumber]

end Reading

end BoardQuery
