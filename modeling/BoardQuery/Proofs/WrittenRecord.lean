/-
Records read back.  A record that is written as an object, with members that its
schema knows and none of them twice, is read back with those members in their
order.
-/
import BoardQuery.Proofs.QuotedText
import BoardQuery.Proofs.WrittenNumber

namespace BoardQuery

def Value.json : Value → String
  | .count n => toString n
  | .null => "null"
  | .text content => quoteJson content

inductive Value.Suits : Kind → Value → Prop
  | count (n : UInt64) : Suits .count (.count n)
  | optionalCount (n : UInt64) : Suits .optionalCount (.count n)
  | null : Suits .optionalCount .null
  | text (text : String) : Suits .text (.text text)

def memberJson (m : String × Value) : String :=
  quoteJson m.1 ++ ":" ++ m.2.json

def objectJson (members : Members) : String :=
  "\x7b" ++ String.intercalate "," (members.map memberJson) ++ "\x7d"

/-- Members that a schema knows, each of the wanted kind and given once. -/
structure Schema.Admits (schema : Schema) (members : Members) : Prop where
  suits : ∀ m ∈ members, ∃ kind, schema.lookup m.1 = some kind ∧ m.2.Suits kind
  distinct : (members.map Prod.fst).Nodup

theorem Schema.Admits.of_append {schema : Schema} {members more : Members}
    (h : schema.Admits (members ++ more)) : schema.Admits members := by
  refine ⟨fun m hm => h.suits m (List.mem_append_left more hm), ?_⟩
  have hdistinct := h.distinct
  rw [List.map_append] at hdistinct
  exact (List.nodup_append.mp hdistinct).1

/-- What is behind the members that were found is not among them. -/
theorem Schema.Admits.lookup_eq_none {schema : Schema} {found : Members}
    {m : String × Value} (h : schema.Admits (found ++ [m])) :
    found.lookup m.1 = none := by
  have hdistinct := h.distinct
  rw [List.map_append, List.map_singleton, List.nodup_append] at hdistinct
  rw [List.lookup_eq_none_iff]
  intro p hp
  have hne := hdistinct.2.2 p.1 (List.mem_map_of_mem hp) m.1 List.mem_cons_self
  simpa using hne.symm

section Reading

variable {rest : Bytes}

theorem skipWord_append (word rest : Bytes) :
    skipWord word (word ++ rest) = .ok rest := by
  induction word with
  | nil => rfl
  | cons letter word ih => simpa [skipWord] using ih

theorem readKey_quoteJson (key : String) (rest : Bytes) :
    readKey (utf8 (quoteJson key) ++ rest) = .ok (key, rest) := by
  obtain ⟨inner, hquoted, hread⟩ := readText_quoteJson key
  rw [hquoted, List.cons_append, readKey, skipBlanks_cons (by decide)]
  exact hread rest

theorem readValue_json {kind : Kind} {value : Value} (h : value.Suits kind)
    (hrest : EndsNumber rest) :
    readValue kind (utf8 value.json ++ rest) = .ok (value, rest) := by
  cases h with
  | count n =>
      have hread : readCount (utf8 (toString n) ++ rest) = .ok (n, rest) :=
        readCount_decimal n hrest
      simp [readValue, Value.json, hread, Except.map]
  | optionalCount n =>
      have hread := readCount_decimal n hrest
      obtain ⟨b, tail, hdecimal, hdigit, _⟩ := exists_decimal_eq_cons n.toNat
      have hletter : b ≠ 'n'.toUInt8 := by
        rintro rfl
        exact absurd hdigit (by decide)
      rw [hdecimal, List.cons_append] at hread
      change readValue .optionalCount (decimal n.toNat ++ rest) = _
      rw [hdecimal, List.cons_append, readValue, skipBlanks_cons_of_digit hdigit]
      simp [hletter, hread, Except.map]
  | null =>
      have hnull : utf8 (Value.json .null) = 'n'.toUInt8 :: utf8 "ull" := by decide
      rw [hnull, List.cons_append, readValue, skipBlanks_cons (by decide)]
      simp [skipWord_append, Except.map]
  | text text =>
      obtain ⟨inner, hquoted, hread⟩ := readText_quoteJson text
      rw [Value.json, hquoted, List.cons_append, readValue,
        skipBlanks_cons (by decide)]
      simp [hread, Except.map]

/-- A member that is known and not given before is read back. -/
theorem readMember_json {schema : Schema} {found : Members} {key : String}
    {kind : Kind} {value : Value} (hkind : schema.lookup key = some kind)
    (hnew : found.lookup key = none) (hvalue : value.Suits kind)
    (hrest : EndsNumber rest) :
    readMember schema found key (utf8 ":" ++ (utf8 value.json ++ rest)) =
      .ok (found ++ [(key, value)], rest) := by
  have hcolon : skipColon (utf8 ":" ++ (utf8 value.json ++ rest)) =
      .ok (utf8 value.json ++ rest) := by
    have hbyte : utf8 ":" = [':'.toUInt8] := by decide
    rw [hbyte, List.singleton_append, skipColon, skipBlanks_cons (by decide)]
    rfl
  simp [readMember, hkind, hnew, hcolon, readValue_json hvalue hrest, bind,
    Except.bind, pure, Except.pure]

theorem readMembers_of_member {schema : Schema} {found members : Members}
    {key : String} {bs inner after : Bytes} {b : UInt8}
    (hkey : readKey bs = .ok (key, inner))
    (hmember : readMember schema found key inner = .ok (members, after))
    (hafter : skipBlanks after = b :: rest) :
    readMembers schema found bs =
      if b = ','.toUInt8 then readMembers schema members rest
      else if b = '\x7d'.toUInt8 then .ok (members, rest)
      else .error .malformed := by
  rw [readMembers]
  split
  · simp_all
  · split
    · simp_all
    · split <;> simp_all

theorem endsNumber_cons {b : UInt8} (hb : b = ','.toUInt8 ∨ b = '\x7d'.toUInt8)
    (rest : Bytes) :
    EndsNumber (b :: rest) := by
  intro c hc
  obtain rfl : b = c := by simpa using hc
  rcases hb with rfl | rfl <;> decide

/-- A member is read, and what stands behind it decides how to go on. -/
theorem readMembers_memberJson {schema : Schema} {found : Members}
    {m : String × Value} (h : schema.Admits (found ++ [m])) {b : UInt8}
    (hb : b = ','.toUInt8 ∨ b = '\x7d'.toUInt8) :
    readMembers schema found (utf8 (memberJson m) ++ b :: rest) =
      if b = ','.toUInt8 then readMembers schema (found ++ [m]) rest
      else if b = '\x7d'.toUInt8 then .ok (found ++ [m], rest)
      else .error .malformed := by
  obtain ⟨key, value⟩ := m
  obtain ⟨kind, hkind, hvalue⟩ := h.suits (key, value) (by simp)
  have hnew : found.lookup key = none := h.lookup_eq_none
  have hblank : isJsonBlank b = false := by
    rcases hb with rfl | rfl <;> decide
  have hkey := readKey_quoteJson key (utf8 ":" ++ (utf8 value.json ++ b :: rest))
  have hmember := readMember_json hkind hnew hvalue (endsNumber_cons hb rest)
  simp only [memberJson, utf8_append, List.append_assoc]
  exact readMembers_of_member hkey hmember (skipBlanks_cons hblank rest)

/-- The members of an object are read back in their order. -/
theorem readMembers_objectJson {schema : Schema} {found members : Members}
    (h : schema.Admits (found ++ members)) (hne : members ≠ []) :
    readMembers schema found
        (utf8 (String.intercalate "," (members.map memberJson)) ++ '\x7d'.toUInt8 ::
          rest) =
      .ok (found ++ members, rest) := by
  induction members generalizing found with
  | nil => contradiction
  | cons m members ih =>
      have hall : schema.Admits (found ++ [m] ++ members) := by
        rwa [← List.append_cons]
      have hfirst := hall.of_append
      cases members with
      | nil =>
          rw [List.map_singleton, String.intercalate_singleton,
            readMembers_memberJson hfirst (.inr rfl)]
          rfl
      | cons next members =>
          have hcomma : utf8 "," = [','.toUInt8] := by decide
          have hrest := ih hall (List.cons_ne_nil next members)
          rw [List.map_cons, List.map_cons, String.intercalate_cons_cons,
            utf8_append, utf8_append, hcomma, List.append_assoc, List.append_assoc,
            List.singleton_append, readMembers_memberJson hfirst (.inl rfl),
            if_pos rfl, ← List.map_cons, hrest, List.append_assoc,
            List.singleton_append]

theorem exists_members_eq_cons (m : String × Value) (members : Members) :
    ∃ inner, utf8 (String.intercalate "," ((m :: members).map memberJson)) =
      '"'.toUInt8 :: inner := by
  obtain ⟨inner, hquoted, _⟩ := readText_quoteJson m.1
  cases members with
  | nil => exact ⟨_, by simp [memberJson, hquoted]; rfl⟩
  | cons next members => exact ⟨_, by simp [memberJson, hquoted]; rfl⟩

/-- A record that was written as an object is read back. -/
theorem readRecord_objectJson {schema : Schema} {members : Members}
    (h : schema.Admits members) (rest : Bytes) :
    readRecord schema (utf8 (objectJson members) ++ rest) =
      .ok (⟨.object, members⟩, rest) := by
  have hopening : utf8 "\x7b" = ['\x7b'.toUInt8] := by decide
  have hclosing : utf8 "\x7d" = ['\x7d'.toUInt8] := by decide
  have hobject : utf8 (objectJson members) ++ rest = '\x7b'.toUInt8 ::
      (utf8 (String.intercalate "," (members.map memberJson)) ++ '\x7d'.toUInt8 ::
        rest) := by
    simp [objectJson, hopening, hclosing]
  rw [hobject, readRecord, skipBlanks_cons (by decide)]
  dsimp only
  rw [if_neg (by decide), if_pos rfl]
  cases members with
  | nil => rfl
  | cons m members =>
      have hmembers : readMembers schema []
          (utf8 (String.intercalate "," ((m :: members).map memberJson)) ++
            '\x7d'.toUInt8 :: rest) =
          .ok (m :: members, rest) :=
        readMembers_objectJson h (List.cons_ne_nil m members)
      obtain ⟨inner, hinner⟩ := exists_members_eq_cons m members
      rw [hinner, List.cons_append] at hmembers ⊢
      rw [skipBlanks_cons (by decide)]
      dsimp only
      rw [if_neg (by decide), hmembers]
      rfl

/-- A text that is such a record and nothing else stands for what the record
stands for. -/
theorem readDocument_objectJson {α : Type} {schema : Schema} {members : Members}
    (h : schema.Admits members) (convert : Record → Except Fault α) :
    readDocument schema convert (utf8 (objectJson members)) =
      convert ⟨.object, members⟩ := by
  have hrecord := readRecord_objectJson h []
  rw [List.append_nil] at hrecord
  cases hconvert : convert ⟨.object, members⟩ with
  | error fault => simp [readDocument, hrecord, hconvert, bind, Except.bind]
  | ok value =>
      simp [readDocument, hrecord, hconvert, skipBlanks, bind, Except.bind, pure,
      Except.pure]

/-- What is read from a document is what a record stands for. -/
theorem exists_record_of_readDocument {α : Type} {schema : Schema}
    {convert : Record → Except Fault α} {bytes : Bytes} {value : α}
    (h : readDocument schema convert bytes = .ok value) :
    ∃ record, convert record = .ok value := by
  cases hrecord : readRecord schema bytes with
  | error fault => simp [readDocument, hrecord, bind, Except.bind] at h
  | ok pair =>
      obtain ⟨record, rest⟩ := pair
      cases hconvert : convert record with
      | error fault =>
          simp [readDocument, hrecord, hconvert, bind, Except.bind] at h
      | ok found =>
          simp only [readDocument, hrecord, hconvert, bind, Except.bind] at h
          split at h
          · exact ⟨record, hconvert.trans h⟩
          · contradiction

end Reading

end BoardQuery
