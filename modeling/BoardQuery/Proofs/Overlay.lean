/-
Configurations in part.  A file may give some fields of a configuration and
leave out others, in any order and mixed with anything else.  Loading it puts
what is given in the place of the defaults and checks the result; a field that
is given twice is refused.
-/
import BoardQuery.Proofs.JsonRecords
import BoardQuery.Proofs.WrittenConfig

namespace BoardQuery

namespace ChannelConfig

structure Fields where
  socketPath? : Option String := none
  maxMessageLength? : Option UInt64 := none
  heartbeat? : Option String := none

def replacing (c : ChannelConfig) (fields : Fields) : ChannelConfig where
  socketPath := fields.socketPath?.getD c.socketPath
  maxMessageLength := fields.maxMessageLength?.getD c.maxMessageLength
  heartbeat := fields.heartbeat?.getD c.heartbeat

/-- Members that give these fields, each once and with a value of its type, and
no others. -/
structure Gives (members : List (String × Bytes)) (fields : Fields) : Prop where
  socketPath : List.Forall₂ SpellsText (valuesOf "socket_path" members)
    fields.socketPath?.toList
  maxMessageLength : List.Forall₂ (fun raw n => raw = decimal n.toNat)
    (valuesOf "max_message_len" members) fields.maxMessageLength?.toList
  heartbeat : List.Forall₂ SpellsText (valuesOf "heartbeat" members)
    fields.heartbeat?.toList

theorem lookup_schema {name : String} {kind : Kind}
    (h : schema.lookup name = some kind) :
    (name, kind) ∈ schema := by
  obtain ⟨before, after, hschema, _⟩ := List.lookup_eq_some_iff.mp h
  rw [hschema]
  simp

section Overlay

variable {c : ChannelConfig} {key : String} {value : Value}

theorem socketPath_overlay (h : key ≠ "socket_path") :
    (overlay c (key, value)).socketPath = c.socketPath := by
  unfold overlay
  split <;> simp_all

theorem maxMessageLength_overlay (h : key ≠ "max_message_len") :
    (overlay c (key, value)).maxMessageLength = c.maxMessageLength := by
  unfold overlay
  split <;> simp_all

theorem heartbeat_overlay (h : key ≠ "heartbeat") :
    (overlay c (key, value)).heartbeat = c.heartbeat := by
  unfold overlay
  split <;> simp_all

end Overlay

/-- A field that is overlaid by its own members only. -/
theorem foldl_overlay {α : Type} {name : String} {get : ChannelConfig → α}
    {wrap : α → Value} (hset : ∀ c a, get (overlay c (name, wrap a)) = a)
    (hkeep : ∀ {c key value}, key ≠ name → get (overlay c (key, value)) = get c)
    {members : Members} {a? : Option α}
    (h : valuesOf name members = (a?.map wrap).toList) (c : ChannelConfig) :
    get (members.foldl overlay c) = a?.getD (get c) := by
  induction members generalizing c a? with
  | nil =>
      cases a? with
      | none => rfl
      | some a => contradiction
  | cons m members ih =>
      obtain ⟨key, value⟩ := m
      by_cases hkey : key = name
      · subst hkey
        rw [valuesOf_cons_self] at h
        cases a? with
        | none => contradiction
        | some a =>
            obtain ⟨rfl, hrest⟩ := List.cons.inj h
            have hnone : valuesOf key members =
              ((none : Option α).map wrap).toList := hrest
            rw [List.foldl_cons, ih hnone]
            exact hset c a
      · rw [valuesOf_cons_of_ne hkey] at h
        rw [List.foldl_cons, ih h, hkeep hkey]

section Loading

variable {members : List (String × Bytes)} {bytes : Bytes} {fields : Fields}

/-- The values of the fields that are given, as they are wanted by the schema. -/
def Fields.values (fields : Fields) (name : String) : List Value :=
  if name = "socket_path" then (fields.socketPath?.map Value.text).toList
  else if name = "max_message_len" then
    (fields.maxMessageLength?.map Value.count).toList
  else (fields.heartbeat?.map Value.text).toList

theorem forall₂_toList {α : Type} {kind : Kind} {wrap : α → Value}
    {R : Bytes → α → Prop} {raws : List Bytes} {a? : Option α}
    (h : List.Forall₂ R raws a?.toList)
    (hR : ∀ raw a, R raw a → StandsFor kind raw (wrap a)) :
    List.Forall₂ (StandsFor kind) raws (a?.map wrap).toList ∧
      (a?.map wrap).toList.length ≤ 1 := by
  cases a? with
  | none => exact ⟨by simpa using h, Nat.zero_le 1⟩
  | some a =>
      obtain ⟨raw, hraw, rfl⟩ : ∃ raw, R raw a ∧ raws = [raw] := by
        simpa [List.forall₂_cons_right_iff] using h
      exact ⟨.cons (hR raw a hraw) .nil, le_rfl⟩

/-- Every known name has the values that are given for it, at most one. -/
theorem Gives.forall₂ (h : Gives members fields) {name : String} {kind : Kind}
    (hkind : schema.lookup name = some kind) :
    List.Forall₂ (StandsFor kind) (valuesOf name members) (fields.values name) ∧
      (fields.values name).length ≤ 1 := by
  have hmem := lookup_schema hkind
  simp only [schema, List.mem_cons, Prod.mk.injEq, List.not_mem_nil,
    or_false] at hmem
  rcases hmem with ⟨rfl, rfl⟩ | ⟨rfl, rfl⟩ | ⟨rfl, rfl⟩
  · exact forall₂_toList h.socketPath fun _ _ hspells => hspells.standsFor
  · refine forall₂_toList h.maxMessageLength ?_
    rintro _ n rfl
    exact standsFor_count n
  · exact forall₂_toList h.heartbeat fun _ _ hspells => hspells.standsFor

/-- The members that were found put what is given in the place of the defaults. -/
theorem ofRecord_of_gives (h : Gives members fields) {found : Members}
    (htakes : TakesAll schema [] members (.ok found)) :
    ofRecord ⟨.object, found⟩ = ({} : ChannelConfig).replacing fields := by
  have hvalues : ∀ name kind, schema.lookup name = some kind →
      valuesOf name found = fields.values name := fun name kind hkind =>
    htakes.valuesOf_eq hkind (h.forall₂ hkind).1
  have hpath := hvalues "socket_path" .text (by decide)
  have hlength := hvalues "max_message_len" .count (by decide)
  have hheartbeat := hvalues "heartbeat" .text (by decide)
  have hpath' := foldl_overlay (fun _ _ => rfl) socketPath_overlay hpath {}
  have hlength' :=
    foldl_overlay (fun _ _ => rfl) maxMessageLength_overlay hlength {}
  have hheartbeat' := foldl_overlay (fun _ _ => rfl) heartbeat_overlay hheartbeat {}
  rw [ofRecord, replacing, ← hpath', ← hlength', ← hheartbeat']

/-- A text that gives some fields is read as the defaults with these fields
replaced. -/
theorem ofJson_of_gives (htext : ObjectText members bytes)
    (h : Gives members fields) :
    ofJson bytes = .ok (({} : ChannelConfig).replacing fields) := by
  obtain ⟨outcome, htakes, hread⟩ :=
    htext.exists_takesAll schema fun record => .ok (ofRecord record)
  obtain ⟨found, rfl⟩ := htakes.exists_ok fun name kind hkind => by
    obtain ⟨hvalues, hlength⟩ := h.forall₂ hkind
    refine ⟨⟨_, hvalues⟩, ?_⟩
    rwa [valuesOf_nil, List.length_nil, Nat.zero_add, hvalues.length_eq]
  rw [ofJson, hread, ← ofRecord_of_gives h htakes]
  rfl

/-- A file that gives some fields is loaded as the defaults with these fields
replaced, if they are sound. -/
theorem load_of_gives {files : FileTree} {path : String}
    (hfile : files.find path = .ok (.file bytes)) (htext : ObjectText members bytes)
    (h : Gives members fields) :
    load files path = (({} : ChannelConfig).replacing fields).validate.map
      fun () => ({} : ChannelConfig).replacing fields := by
  simp only [load, hfile, ofFile, ofJson_of_gives htext h]

theorem ofJson_of_twice (htext : ObjectText members bytes) {name : String}
    (hname : name ∈ ["socket_path", "max_message_len", "heartbeat"])
    (htwice : 2 ≤ (valuesOf name members).length) :
    ∃ fault, ofJson bytes = .error fault := by
  obtain ⟨outcome, htakes, hread⟩ :=
    htext.exists_takesAll schema fun record => .ok (ofRecord record)
  cases outcome with
  | error fault => exact ⟨fault, hread⟩
  | ok found =>
      have hall : ∀ name ∈ ["socket_path", "max_message_len", "heartbeat"],
          (schema.lookup name).isSome = true := by decide
      obtain ⟨kind, hkind⟩ := Option.isSome_iff_exists.mp (hall name hname)
      exact absurd htwice (Nat.not_le.mpr
        (Nat.lt_succ_of_le (htakes.length_le hkind).1))

end Loading

/-- What is loaded from a file with a JSON object in it, whatever the order of
its members, the blanks between them and the members of other names are: the
defaults with the fields that are given in their places, if that is sound, and
else what is wrong with it.  Two files that give the same fields load alike, and
a file that gives a field twice is refused. -/
theorem load_replaces_defaults {files : FileTree} {path : String}
    {members : List (String × Bytes)} {bytes : Bytes}
    (hfile : files.find path = .ok (.file bytes))
    (htext : ObjectText members bytes) :
    (∀ fields, Gives members fields →
      (load files path =
        let c := ({} : ChannelConfig).replacing fields
        c.validate.map fun () => c) ∧
      ∀ (files' : FileTree) (path' : String) (members' : List (String × Bytes))
        (bytes' : Bytes),
        files'.find path' = .ok (.file bytes') → ObjectText members' bytes' →
          Gives members' fields → load files' path' = load files path) ∧
    ∀ name ∈ ["socket_path", "max_message_len", "heartbeat"],
      2 ≤ (valuesOf name members).length →
        ∃ fault, load files path = .error (.json fault) := by
  refine ⟨fun fields h => ⟨load_of_gives hfile htext h, ?_⟩,
    fun name hname htwice => ?_⟩
  · intro files' path' members' bytes' hfile' htext' h'
    rw [load_of_gives hfile htext h, load_of_gives hfile' htext' h']
  · obtain ⟨fault, hfault⟩ := ofJson_of_twice htext hname htwice
    exact ⟨fault, by simp only [load, hfile, ofFile, hfault]⟩

/-- A member of another name has a known name and quoted brackets inside its
value, the known fields come in an order of their own, one with an escape in its
key and a value of two code units, and a second text gives one field twice with
equal values. -/
theorem load_replaces_defaults_hostile :
    let text := "\x7b\"x\":[\x7b\"heartbeat\":1\x7d,\"\x7d\\\"\"],\n" ++
      "\"heart\\u0062eat\":\"\\ud83d\\uDE00\" , \"max_message_len\":7\x7d\n"
    let twice := "\x7b\"heartbeat\":\"a\",\"heartbeat\":\"a\"\x7d"
    let holding (text : String) : FileTree :=
      { root := .directory [("c", .file (utf8 text))] }
    load (holding text) "c" = .ok { maxMessageLength := 7, heartbeat := "😀" } ∧
      ∃ fault, load (holding twice) "c" = .error (.json fault) := by
  intro text twice holding
  have hnone : JsonBlanks [] := nofun
  have hplain : ∀ word ∈
    ["x", "heartbeat", "heart", "eat", "max_message_len", "a", "\x7d"],
      ∀ c ∈ word.toList, c ≠ '"' ∧ c ≠ '\\' ∧ ¬c.toNat < 0x20 := by simp
  have hword :
      ∀ word ∈ ["x", "heartbeat", "heart", "eat", "max_message_len", "a", "\x7d"],
        Spells (utf8 word ++ ['"'.toUInt8]) word.toList := by
    intro word hmem
    have hspells := Spells.close.utf8_append (hplain word hmem)
    rwa [List.append_nil] at hspells
  have hone : JsonForm .value (decimal 1) := jsonForm_decimal 1
  have hinner : JsonForm .member _ :=
    .member hnone (hword "heartbeat" (by simp)).jsonQuoted hnone
      (.element hnone hone hnone)
  have hbracket : Spells _ _ := Spells.utf8_append
    (.char (.short (by decide : ('"', '"') ∈ shortEscapes)) .close)
      (hplain "\x7d" (by simp))
  have hother : JsonForm .value _ := .list (.nextElement
    (.element hnone (.object (.lastMember hinner)) hnone)
    (.lastElement (.element hnone (.quoted hbracket.jsonQuoted) hnone)))
  have hletter : HexUnit [0x30, 0x30, 0x36, 0x32] 'b'.toNat :=
    @HexUnit.mk _ _ _ _ 0 0 6 2 (.inl rfl) (.inl rfl) (.inl rfl) (.inl rfl)
  have hkey : Spells _ _ := Spells.utf8_append
    (.char (.unit hletter) (hword "eat" (by simp))) (hplain "heart" (by simp))
  have hlead : HexUnit [0x64, 0x38, 0x33, 0x64] 0xD83D :=
    @HexUnit.mk _ _ _ _ 13 8 3 13 (.inl rfl) (.inl rfl) (.inl rfl) (.inl rfl)
  have htrail : HexUnit [0x44, 0x45, 0x30, 0x30] 0xDE00 :=
    @HexUnit.mk _ _ _ _ 13 14 0 0 (.inr rfl) (.inr rfl) (.inl rfl) (.inl rfl)
  have hface : SpellsText _ "😀" :=
    ⟨_, rfl, .char (.pair hlead htrail (by decide) (by decide)
    (by decide : '😀'.toNat = _)) .close⟩
  have hblank : JsonBlanks [0x20] := List.forall_mem_singleton.mpr (by decide)
  have hline : JsonBlanks [0x0A] := List.forall_mem_singleton.mpr (by decide)
  have hmembers : MembersText _ _ :=
    .next (.mk hnone (hword "x" (by simp)) hnone hnone hother hnone)
      (.next (@MemberText.mk "heartbeat" _ _ _ _ _ _ hline hkey hnone hnone
        hface.jsonForm hblank)
        (.last (.mk hblank (hword "max_message_len" (by simp)) hnone hnone
          (jsonForm_decimal 7)
          hnone)))
  have htext : ∃ bytes, ObjectText _ bytes ∧ bytes = utf8 text :=
    ⟨_, .members hnone hmembers hline, by decide +kernel⟩
  obtain ⟨_, htext, rfl⟩ := htext
  have hmember : MemberText "heartbeat" _ _ :=
    .mk hnone (hword "heartbeat" (by simp)) hnone hnone
      (.quoted (hword "a" (by simp)).jsonQuoted)
      hnone
  have htwice : ∃ bytes, ObjectText _ bytes ∧ bytes = utf8 twice :=
    ⟨_, .members hnone (.next hmember (.last hmember)) hnone, by decide +kernel⟩
  obtain ⟨_, htwice, rfl⟩ := htwice
  obtain ⟨hloads, -⟩ := load_replaces_defaults (FileTree.find_c _) htext
  obtain ⟨-, hrefuses⟩ := load_replaces_defaults (FileTree.find_c _) htwice
  have hload := (hloads { heartbeat? := some "😀", maxMessageLength? := some 7 }
    ⟨.nil, .cons rfl .nil, .cons hface .nil⟩).1
  refine ⟨?_, hrefuses "heartbeat" (by simp) (by simp)⟩
  rw [hload]
  decide

/-- What is wrong with a member is wrong with the file. -/
theorem load_of_readMembers_error {files : FileTree} {path : String} {inner : Bytes}
    {fault : Fault}
    (hfile : files.find path = .ok (.file ('\x7b'.toUInt8 :: '"'.toUInt8 :: inner)))
    (h : readMembers schema [] ('"'.toUInt8 :: inner) = .error fault) :
    load files path = .error (.json fault) := by
  have hrecord : readRecord schema ('\x7b'.toUInt8 :: '"'.toUInt8 :: inner) =
      .error fault := by
    rw [readRecord, skipBlanks_cons (by decide)]
    dsimp only
    rw [if_neg (by decide), if_pos rfl, skipBlanks_cons (by decide)]
    dsimp only
    rw [if_neg (by decide), h]
    rfl
  simp [load, hfile, ofFile, ofJson, readDocument, hrecord, bind, Except.bind]

/-- Not every JSON object is loaded.  A name whose escapes stand for no text is
refused though it is the name of no field, and so is a count with a sign in
front of it. -/
theorem load_refuses_unpaired_surrogate :
    let unpaired := "\x7b\"\\ud800\":1\x7d"
    let signed := "\x7b\"max_message_len\":-0\x7d"
    let holding (text : String) : FileTree :=
      { root := .directory [("c", .file (utf8 text))] }
    JsonForm .value (utf8 unpaired) ∧ JsonForm .value (utf8 signed) ∧
      ({} : ChannelConfig).validate = .ok () ∧
      load (holding unpaired) "c" = .error (.json .malformed) ∧
      load (holding signed) "c" = .error (.json .unsuitable) := by
  intro unpaired signed holding
  have hnone : JsonBlanks [] := by simp [JsonBlanks]
  have hunit : JsonPiece ('\\'.toUInt8 :: 'u'.toUInt8 :: utf8 "d800") :=
    .unit (by decide) (by decide +kernel)
  have hunpaired : ∃ bytes, JsonForm .value bytes ∧ bytes = utf8 unpaired :=
    ⟨_, .object (.lastMember (.member hnone (.piece hunit .close) hnone
      (.element hnone (jsonForm_decimal 1) hnone))), by decide +kernel⟩
  have hname : Spells (utf8 "max_message_len" ++ ['"'.toUInt8])
      "max_message_len".toList := by
    have hspells := @Spells.utf8_append _ _ "max_message_len" .close (by simp)
    rwa [List.append_nil] at hspells
  have hzero : JsonNumber (utf8 "-" ++ (['0'.toUInt8] ++ ([] ++ []))) :=
    .mk (by simp) .zero .absent .absent
  have hsigned : ∃ bytes, JsonForm .value bytes ∧ bytes = utf8 signed :=
    ⟨_, .object (.lastMember (.member hnone hname.jsonQuoted hnone
      (.element hnone (.number hzero) hnone))), by decide +kernel⟩
  obtain ⟨_, hunpaired, rfl⟩ := hunpaired
  obtain ⟨_, hsigned, rfl⟩ := hsigned
  refine ⟨hunpaired, hsigned, by decide, ?_, ?_⟩
  · exact @load_of_readMembers_error _ _ (utf8 "\\ud800\":1\x7d") _
      (FileTree.find_c _) (readMembers_of_unread (by decide +kernel))
  · exact @load_of_readMembers_error _ _
      (utf8 "max_message_len" ++ ['"'.toUInt8] ++ utf8 ":-0\x7d") _
      (FileTree.find_c _)
      (readMembers_of_error (readKey_append hnone hname (utf8 ":-0\x7d"))
        (by decide +kernel))

end ChannelConfig

end BoardQuery
