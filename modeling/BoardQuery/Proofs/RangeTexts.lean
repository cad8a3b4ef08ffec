/-
Ranges read back.  A range has two written forms, a text of its own and JSON.
Each is read as the two bounds that were written, and both readers hold these to
the same rule: there may be no upper bound below the lower one.
-/
import BoardQuery.Range.Json
import BoardQuery.Proofs.RangeGrammar
import BoardQuery.Proofs.WrittenRecord

namespace BoardQuery

namespace CountRange

def Ordered (r : CountRange) : Prop :=
  ∀ max, r.max = some max → r.min ≤ max

section Bounds

variable {r : CountRange}

/-- Bounds in order are those of a range, and no others are. -/
theorem ofBounds_eq_ok_iff {min : UInt64} {max : Option UInt64} :
    ofBounds min max = .ok r ↔ r = ⟨min, max⟩ ∧ r.Ordered := by
  cases max with
  | none =>
      have hordered : (⟨min, none⟩ : CountRange).Ordered := nofun
      constructor
      · intro h
        obtain rfl : atLeast min = r := Except.ok.inj h
        exact ⟨rfl, hordered⟩
      · rintro ⟨rfl, -⟩
        rfl
  | some max =>
      have hordered : (⟨min, some max⟩ : CountRange).Ordered ↔ min ≤ max := by
        simp [Ordered]
      rw [ofBounds, between]
      constructor
      · intro h
        split at h
        · next hle =>
            obtain rfl := Except.ok.inj h
            exact ⟨rfl, hordered.mpr hle⟩
        · contradiction
      · rintro ⟨rfl, h⟩
        exact if_pos (hordered.mp h)

theorem Ordered.ofBounds_eq (h : r.Ordered) : ofBounds r.min r.max = .ok r :=
  ofBounds_eq_ok_iff.mpr ⟨rfl, h⟩

theorem ofBounds_of_lt {min max : UInt64} (h : max < min) :
    ofBounds min (some max) = .error (reversed min max) :=
  if_neg (UInt64.not_le.mpr h)

/-- What a range with bounds in order accepts; the lower bound is such a count. -/
theorem accepts_iff (r : CountRange) (count : Nat) :
    r.accepts count = true ↔
      r.min.toNat ≤ count ∧ ∀ max, r.max = some max → count ≤ max.toNat := by
  rw [accepts, Bool.and_eq_true, decide_eq_true_eq, Option.all_eq_true]
  simp only [decide_eq_true_eq]

theorem Ordered.accepts_min (h : r.Ordered) : r.accepts r.min.toNat = true :=
  (r.accepts_iff _).mpr ⟨Nat.le_refl _,
    fun max hmax => UInt64.le_iff_toNat_le.mp (h max hmax)⟩

end Bounds

section Text

/-- The bounds that the text of a range divides into. -/
def writtenBounds (min : UInt64) : Option UInt64 → Bounds
  | none => .onward (toString min).toList
  | some max =>
      if max = min then .only (toString min).toList
      else .both (toString min).toList (toString max).toList

/-- The text of a range has no blanks at its ends and divides into its bounds. -/
theorem divides_text (r : CountRange) :
    Trimmed r.text.toList ∧ Divides r.text.toList (writtenBounds r.min r.max) := by
  obtain ⟨min, max⟩ := r
  have hlow := numeral_toString min
  cases max with
  | none =>
      have htext : (text ⟨min, none⟩).toList =
          (toString min).toList ++ ['.', '.'] :=
        String.toList_append
      have hdot : isBlank '.' = false := by decide
      have hdots : Trimmed ['.', '.'] := trimmed_of_forall (by simp [hdot])
      have htrimmed :=
        hlow.trimmed.append hdots hlow.ne_nil (List.cons_ne_nil _ _) []
      have hdivides := divides_onward hlow blanks_nil blanks_nil
      rw [List.append_nil] at htrimmed
      rw [List.append_nil, List.append_nil] at hdivides
      rw [htext]
      exact ⟨htrimmed, hdivides⟩
  | some max =>
      by_cases hsame : max = min
      · have htext : text ⟨min, some max⟩ = toString min := if_pos hsame
        rw [htext, writtenBounds, if_pos hsame]
        exact ⟨hlow.trimmed, divides_whole hlow⟩
      · have hhigh := numeral_toString max
        have htext : text ⟨min, some max⟩ = toString min ++ " " ++ toString max :=
          if_neg hsame
        have hblank : Blanks " ".toList := List.forall_mem_singleton.mpr (by decide)
        rw [htext, String.toList_append, String.toList_append, writtenBounds,
          if_neg hsame]
        exact ⟨hlow.trimmed.append hhigh.trimmed hlow.ne_nil hhigh.ne_nil _,
          divides_spaced hlow hblank (List.cons_ne_nil _ _) hhigh⟩

theorem read_writtenBounds (input : String) (min : UInt64) (max : Option UInt64) :
    (writtenBounds min max).read input = ofBounds min max := by
  have hlow := readTrimmed_of_numeral input (numeral_toString min)
  cases max with
  | none =>
      rw [writtenBounds, Bounds.read, hlow]
      rfl
  | some max =>
      by_cases hsame : max = min
      · rw [writtenBounds, if_pos hsame, Bounds.read, hlow, hsame, ofBounds,
          between, if_pos (UInt64.le_refl min)]
        rfl
      · rw [writtenBounds, if_neg hsame, Bounds.read, hlow,
          readTrimmed_of_numeral input (numeral_toString max)]
        rfl

/-- The text of a range is read as its bounds, in whatever order they are. -/
theorem parse_text (r : CountRange) : parse r.text = ofBounds r.min r.max := by
  obtain ⟨htrimmed, hdivides⟩ := r.divides_text
  rw [← trimBlanks_of_trimmed htrimmed] at hdivides
  rw [parse_eq_read hdivides, read_writtenBounds]

theorem ordered_of_parse {input : String} {r : CountRange}
    (h : parse input = .ok r) :
    r.Ordered := by
  obtain ⟨bounds, hdivides⟩ := exists_divides (trimBlanks input.toList)
  have hreads := (parse_eq_iff hdivides).mp h
  cases hreads with
  | only hlow => simp [Ordered, exactly]
  | onward hlow => simp [Ordered, atLeast]
  | both hlow hhigh hle => simpa [Ordered] using hle

end Text

section Json

def members (r : CountRange) : Members :=
  [("min", .count r.min), ("max", r.max.elim .null .count)]

theorem json_eq_objectJson (r : CountRange) : r.json = objectJson r.members := by
  have hmin : "\x7b\"min\":" = "\x7b" ++ quoteJson "min" ++ ":" := by decide
  have hmax : ",\"max\":" = "," ++ quoteJson "max" ++ ":" := by decide
  obtain ⟨min, max⟩ := r
  unfold json
  rw [hmin, hmax]
  cases max <;>
    simp only [objectJson, members, List.map_cons, List.map_nil, memberJson,
      Value.json, Option.elim, String.intercalate_cons_cons,
      String.intercalate_singleton, String.append_assoc]

theorem admits_members (r : CountRange) : schema.Admits r.members := by
  refine ⟨?_, by simp [members]⟩
  simp only [members, List.forall_mem_cons]
  refine ⟨⟨.count, by decide, .count _⟩, ⟨.optionalCount, by decide, ?_⟩, nofun⟩
  cases r.max with
  | none => exact .null
  | some max => exact .optionalCount max

/-- The JSON of a range is read as its bounds, in whatever order they are. -/
theorem ofJson_json (r : CountRange) :
    ofJson (utf8 r.json) = ofReadBounds r.min r.max := by
  rw [ofJson, json_eq_objectJson, readDocument_objectJson r.admits_members]
  obtain ⟨min, max⟩ := r
  cases max <;> rfl

theorem ofReadBounds_eq_ok_iff {min : UInt64} {max : Option UInt64}
    {r : CountRange} :
    ofReadBounds min max = .ok r ↔ ofBounds min max = .ok r := by
  rw [ofReadBounds]
  cases ofBounds min max <;> simp

/-- Only bounds in order are taken from a record, in whatever form it was
written. -/
theorem ordered_of_ofRecord {record : Record} {r : CountRange}
    (h : ofRecord record = .ok r) :
    r.Ordered := by
  have hbounds : ∃ min max, ofReadBounds min max = .ok r := by
    rw [ofRecord.eq_def] at h
    generalize record.member? "min" = low at h
    generalize record.member? "max" = high at h
    generalize record.form = form at h
    rcases low with _ | ⟨min⟩ | _ | _
    · contradiction
    · rcases high with _ | ⟨max⟩ | _ | _
      · cases form with
        | list => contradiction
        | object => exact ⟨_, _, h⟩
      · exact ⟨_, _, h⟩
      · exact ⟨_, _, h⟩
      · exact ⟨_, _, h⟩
    · contradiction
    · contradiction
  obtain ⟨min, max, hread⟩ := hbounds
  exact (ofBounds_eq_ok_iff.mp (ofReadBounds_eq_ok_iff.mp hread)).2

theorem ordered_of_ofJson {bytes : Bytes} {r : CountRange}
    (h : ofJson bytes = .ok r) :
    r.Ordered := by
  obtain ⟨record, hrecord⟩ := exists_record_of_readDocument h
  exact ordered_of_ofRecord hrecord

end Json

theorem Ordered.reads_back {r : CountRange} (h : r.Ordered) :
    parse r.text = .ok r ∧ ofJson (utf8 r.json) = .ok r := by
  rw [parse_text, ofJson_json, ofReadBounds_eq_ok_iff]
  exact ⟨h.ofBounds_eq, h.ofBounds_eq⟩

/-- Both written forms of a range are read back as that range if its bounds are
in order, and are refused for their order if they are not.  Whatever else is
read, as a text or as JSON, gives a range with bounds in order, which accepts
the counts between them, of which there is at least one, and is read back from
its own written forms. -/
theorem written_forms_read_back (r : CountRange) :
    (r.Ordered → parse r.text = .ok r ∧ ofJson (utf8 r.json) = .ok r) ∧
    (∀ max, r.max = some max → max < r.min →
      parse r.text = .error (reversed r.min max) ∧
      ofJson (utf8 r.json) = .error (.refused (reversed r.min max).message)) ∧
    ((∃ input, parse input = .ok r) ∨ (∃ bytes, ofJson bytes = .ok r) →
      r.Ordered ∧
      (∀ count, r.accepts count = true ↔
        r.min.toNat ≤ count ∧ ∀ max, r.max = some max → count ≤ max.toNat) ∧
      (∃ count < 2 ^ 64, r.accepts count = true) ∧
      parse r.text = .ok r ∧ ofJson (utf8 r.json) = .ok r) := by
  refine ⟨Ordered.reads_back, fun max hmax hlt => ?_, fun hread => ?_⟩
  · have hrefused := ofBounds_of_lt hlt
    rw [← hmax] at hrefused
    rw [parse_text, ofJson_json, ofReadBounds, hrefused]
    exact ⟨rfl, rfl⟩
  · have hordered : r.Ordered := by
      rcases hread with ⟨input, hparse⟩ | ⟨bytes, hjson⟩
      · exact ordered_of_parse hparse
      · exact ordered_of_ofJson hjson
    exact ⟨hordered, r.accepts_iff,
      ⟨r.min.toNat, r.min.toNat_lt, hordered.accepts_min⟩,
      hordered.reads_back⟩

end CountRange

end BoardQuery
