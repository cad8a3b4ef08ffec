/-
Quoted texts read back.  What the writer of JSON makes of a character, be it an
escape or the character itself, the reader takes for the bytes of that
character.
-/
import BoardQuery.Json.Quoted
import BoardQuery.Json.Text
import Mathlib.Tactic.SplitIfs

namespace BoardQuery

section Reading

variable {draft after : Draft} {bs rest : Bytes}

theorem readPiece_backslash (bs : Bytes) :
    readPiece ('\\'.toUInt8 :: bs) = readEscape bs := by
  rw [readPiece, if_neg (by decide), if_pos rfl]

/-- A piece that is not the closing quote adds to the draft. -/
theorem readTextOn_of_piece {piece : Piece}
    (hpiece : readPiece bs = .ok (piece, rest)) (hopen : piece ≠ .close)
    (hadd : draft.add piece = .ok after) :
    readTextOn draft bs = readTextOn after rest := by
  rw [readTextOn]
  split <;> simp_all

theorem readTextOn_close (draft : Draft) (rest : Bytes) :
    readTextOn draft ('"'.toUInt8 :: rest) = draft.finish.map fun text =>
      (text, rest) := by
  rw [readTextOn]
  split <;> simp_all [readPiece]

/-- Bytes that are neither quotes nor backslashes nor controls stand for
themselves. -/
theorem readTextOn_plain {plain : Bytes}
    (hplain : ∀ b ∈ plain, b ≠ '"'.toUInt8 ∧ b ≠ '\\'.toUInt8 ∧ ¬ b < 0x20)
    (done rest : Bytes) :
    readTextOn ⟨none, done⟩ (plain ++ rest) =
      readTextOn ⟨none, plain.reverse ++ done⟩ rest := by
  induction plain generalizing done with
  | nil => rfl
  | cons b plain ih =>
      rw [List.forall_mem_cons] at hplain
      obtain ⟨⟨hquote, hslash, hcontrol⟩, hrest⟩ := hplain
      have hpiece : readPiece (b :: plain ++ rest) =
          .ok (.byte b, plain ++ rest) := by
        simp [readPiece, hquote, hslash, hcontrol]
      rw [readTextOn_of_piece hpiece nofun rfl, ih hrest]
      simp

theorem readTextOn_short {letter b : UInt8} (hshort : shortEscape? letter = some b)
    (hletter : letter ≠ 'u'.toUInt8) (done rest : Bytes) :
    readTextOn ⟨none, done⟩ ('\\'.toUInt8 :: letter :: rest) =
      readTextOn ⟨none, b :: done⟩ rest := by
  have hpiece : readPiece ('\\'.toUInt8 :: letter :: rest) =
      .ok (.byte b, rest) := by
    rw [readPiece_backslash, readEscape, if_neg hletter, hshort]
  exact readTextOn_of_piece hpiece nofun rfl

theorem readPiece_unit {code : Nat} (hunit : readUnit bs = .ok (code, rest)) :
    readPiece ('\\'.toUInt8 :: 'u'.toUInt8 :: bs) = .ok (.unit code, rest) := by
  rw [readPiece_backslash, readEscape, if_pos rfl, hunit]
  rfl

/-- The hexadecimal digits of a code unit that is a character of its own stand
for it. -/
theorem readTextOn_unit {c : Char} (hunit : readUnit bs = .ok (c.toNat, rest))
    (done : Bytes) :
    readTextOn ⟨none, done⟩ ('\\'.toUInt8 :: 'u'.toUInt8 :: bs) =
      readTextOn ⟨none, (String.utf8EncodeChar c).reverse ++ done⟩ rest := by
  have hcode : c.toNat < 0xD800 ∨ 0xDFFF < c.toNat ∧ c.toNat < 0x110000 := c.valid
  have hadd : Draft.add ⟨none, done⟩ (.unit c.toNat) =
      .ok ⟨none, (String.utf8EncodeChar c).reverse ++ done⟩ := by
    have hlead : ¬ (0xD800 ≤ c.toNat ∧ c.toNat < 0xDC00) := by omega
    have htrail : ¬ (0xDC00 ≤ c.toNat ∧ c.toNat < 0xE000) := by omega
    simp only [Draft.add, if_neg hlead, if_neg htrail, Draft.push, Char.ofNat_toNat]
  exact readTextOn_of_piece (readPiece_unit hunit) nofun hadd

end Reading

/-- The reader knows the hexadecimal digits of the writer. -/
theorem hexValue_hexDigit {n : Nat} (hn : n < 16) :
    ∃ b, String.utf8EncodeChar (hexDigit n) = [b] ∧ hexValue? b = some n := by
  have hall : ∀ n : Fin 16,
      (String.utf8EncodeChar (hexDigit n)).map hexValue? = [some n.val] := by
    decide
  exact List.map_eq_singleton_iff.mp (hall ⟨n, hn⟩)

def escaped (c : Char) : Bytes :=
  (escapeJson c).flatMap String.utf8EncodeChar

/-- A control character is written with four digits that give its code. -/
theorem readUnit_control {n : Nat} (hn : n < 0x20) (rest : Bytes) :
    readUnit (['0', '0', hexDigit (n / 16),
      hexDigit (n % 16)].flatMap String.utf8EncodeChar ++
      rest) = .ok (n, rest) := by
  obtain ⟨high, hhigh, hhighValue⟩ := hexValue_hexDigit (show n / 16 < 16 by omega)
  obtain ⟨low, hlow, hlowValue⟩ := hexValue_hexDigit (show n % 16 < 16 by omega)
  have hzero : String.utf8EncodeChar '0' = [0x30] := by decide
  have hzeroValue : hexValue? 0x30 = some 0 := by decide
  simpa [hzero, hhigh, hlow, readUnit, hzeroValue, hhighValue, hlowValue] using
    Nat.div_add_mod' n 16

/-- What stands for itself between quotes has no byte of another meaning in it. -/
theorem plain_of_mem_utf8EncodeChar {c : Char} (hquote : c ≠ '"')
    (hslash : c ≠ '\\') (hcontrol : ¬ c.toNat < 0x20) :
    ∀ b ∈ String.utf8EncodeChar c, b ≠ '"'.toUInt8 ∧ b ≠ '\\'.toUInt8 ∧
      ¬ b < 0x20 := by
  intro b hb
  rcases toNat_of_mem_utf8EncodeChar hb with hcode | hhigh
  · refine ⟨?_, ?_, ?_⟩
    · rintro rfl
      exact hquote (Char.toNat_inj.mp hcode.symm)
    · rintro rfl
      exact hslash (Char.toNat_inj.mp hcode.symm)
    · rwa [UInt8.lt_iff_toNat_lt, hcode]
  · refine ⟨?_, ?_, ?_⟩
    · rintro rfl
      exact absurd hhigh (by decide)
    · rintro rfl
      exact absurd hhigh (by decide)
    · rw [UInt8.lt_iff_toNat_lt]
      exact Nat.not_lt.mpr (Nat.le_trans (by decide) hhigh)

/-- Whatever a character is, the reader takes what was written for its bytes. -/
theorem readTextOn_escaped (c : Char) (done rest : Bytes) :
    readTextOn ⟨none, done⟩ (escaped c ++ rest) =
      readTextOn ⟨none, (String.utf8EncodeChar c).reverse ++ done⟩ rest := by
  have hof : ∀ c' : Char, c.toNat = c'.toNat → c = c' :=
    fun c' h => Char.toNat_inj.mp h
  unfold escaped escapeJson
  split_ifs with hquote hslash hb ht hn hf hr hcontrol
  · obtain rfl := hquote
    exact readTextOn_short rfl (by decide) done rest
  · obtain rfl := hslash
    exact readTextOn_short rfl (by decide) done rest
  · obtain rfl := hof '\x08' hb
    exact readTextOn_short rfl (by decide) done rest
  · obtain rfl := hof '\t' ht
    exact readTextOn_short rfl (by decide) done rest
  · obtain rfl := hof '\n' hn
    exact readTextOn_short rfl (by decide) done rest
  · obtain rfl := hof '\x0c' hf
    exact readTextOn_short rfl (by decide) done rest
  · obtain rfl := hof '\r' hr
    exact readTextOn_short rfl (by decide) done rest
  · exact readTextOn_unit (readUnit_control hcontrol rest) done
  · rw [List.flatMap_singleton]
    exact readTextOn_plain (plain_of_mem_utf8EncodeChar hquote hslash hcontrol) done
      rest

theorem readTextOn_escapedAll (cs : List Char) (done rest : Bytes) :
    readTextOn ⟨none, done⟩ (cs.flatMap escaped ++ rest) =
      readTextOn ⟨none, (cs.flatMap String.utf8EncodeChar).reverse ++ done⟩
        rest := by
  induction cs generalizing done with
  | nil => rfl
  | cons c cs ih =>
      rw [List.flatMap_cons, List.append_assoc, readTextOn_escaped, ih]
      simp

/-- A quoted text is read back from behind its opening quote. -/
theorem readText_quoteJson (text : String) :
    ∃ inner, utf8 (quoteJson text) = '"'.toUInt8 :: inner ∧
      ∀ rest, readText (inner ++ rest) = .ok (text, rest) := by
  refine ⟨text.toList.flatMap escaped ++ ['"'.toUInt8], ?_, fun rest => ?_⟩
  · rw [quoteJson, utf8_ofList, List.flatMap_append, List.flatMap_cons,
      List.flatMap_assoc]
    rfl
  · have hfinish : Draft.finish ⟨none, (utf8 text).reverse ++ []⟩ = .ok text := by
      simp [Draft.finish]
    rw [List.append_assoc, readText, readTextOn_escapedAll, ← utf8_eq_flatMap]
    rw [List.singleton_append, readTextOn_close, hfinish]
    rfl

end BoardQuery
