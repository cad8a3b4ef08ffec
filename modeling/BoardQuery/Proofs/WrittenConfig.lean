/-
Configurations read back.  Whatever a configuration has in it, loading it from a
file that holds it as JSON gives that configuration if it is sound, and what is
wrong with it if not.
-/
import BoardQuery.Channel.Files
import BoardQuery.Proofs.WrittenRecord

namespace BoardQuery

theorem FileTree.find_c (content : Bytes) :
    FileTree.find { root := .directory [("c", .file content)] } "c" =
      .ok (.file content) := by
  have hnames : "c".splitOn "/" = ["c"] := by
    rw [String.splitOn, if_neg (by decide), String.splitOnAux, if_neg (by decide),
      if_neg (by decide), String.splitOnAux, if_pos (by decide)]
    decide
  have hsize : "c".utf8ByteSize = 1 := by decide
  simp [find, namesAlong, hnames, hsize, FileNode.follow, maxPath, maxFileName]

namespace ChannelConfig

def members (c : ChannelConfig) : Members :=
  [("socket_path", .text c.socketPath),
    ("max_message_len", .count c.maxMessageLength),
    ("heartbeat", .text c.heartbeat)]

theorem json_eq_objectJson (c : ChannelConfig) : c.json = objectJson c.members := by
  have hpath : "\x7b\"socket_path\":" =
    "\x7b" ++ quoteJson "socket_path" ++ ":" := by decide
  have hlength : ",\"max_message_len\":" =
    "," ++ quoteJson "max_message_len" ++ ":" := by decide
  have hheartbeat : ",\"heartbeat\":" = "," ++ quoteJson "heartbeat" ++ ":" := by
    decide
  unfold json
  rw [hpath, hlength, hheartbeat]
  simp only [objectJson, members, List.map_cons, List.map_nil, memberJson,
    Value.json, String.intercalate_cons_cons, String.intercalate_singleton,
    String.append_assoc]

theorem admits_members (c : ChannelConfig) : schema.Admits c.members := by
  refine ⟨?_, by simp [members]⟩
  simp only [members, List.forall_mem_cons]
  exact ⟨⟨.text, by decide, .text _⟩, ⟨.count, by decide, .count _⟩,
    ⟨.text, by decide, .text _⟩,
    nofun⟩

theorem ofRecord_members (c : ChannelConfig) :
    ofRecord ⟨.object, c.members⟩ = c := by
  rfl

theorem ofJson_json (c : ChannelConfig) : ofJson (utf8 c.json) = .ok c := by
  rw [ofJson, json_eq_objectJson, readDocument_objectJson c.admits_members,
    ofRecord_members]

theorem eq_invalidConfiguration_of_validate {c : ChannelConfig} {e : Error}
    (h : c.validate = .error e) : ∃ message, e = .invalidConfiguration message := by
  unfold validate at h
  split at h
  · simp at h
  · next flaw _ => exact ⟨flaw, (Except.error.inj h).symm⟩

/-- Loading a configuration from a file that holds it as JSON checks it, and
gives it back as it was if it is sound. -/
theorem load_json {files : FileTree} {path : String} {c : ChannelConfig}
    (hfile : files.find path = .ok (.file (utf8 c.json))) :
    ofJson (utf8 c.json) = .ok c ∧
    (c.validate = .ok () → load files path = .ok c) ∧
    ∀ e, c.validate = .error e →
      load files path = .error e ∧ ∃ message,
        e = .invalidConfiguration message := by
  have hload : load files path = c.validate.map fun () => c := by
    simp [load, hfile, ofFile, ofJson_json]
  refine ⟨ofJson_json c, fun hsound => ?_, fun e hflaw => ⟨?_, ?_⟩⟩
  · rw [hload, hsound]
    rfl
  · rw [hload, hflaw]
    rfl
  · exact eq_invalidConfiguration_of_validate hflaw

/-- Quotes, backslashes, slashes, controls with a short escape and without,
characters of every length in UTF-8 and the largest limit come back, and the
first flaw of two is reported. -/
theorem load_json_hostile :
    let c : ChannelConfig :=
      { socketPath := "a\"b\\c/d\x00\x08\t\n\x0c\r\x1f\x7fé€😀"
        maxMessageLength := 18446744073709551615
        heartbeat := "\\u0041\"\x01" }
    let flawed : ChannelConfig :=
      { maxMessageLength := 0, heartbeat := "two\nlines" }
    let holding (content : Bytes) : FileTree :=
      { root := .directory [("c", .file content)] }
    c.validate = .ok () ∧ load (holding (utf8 c.json)) "c" = .ok c ∧
      load (holding (utf8 flawed.json)) "c" =
        .error (.invalidConfiguration "max_message_len must be positive") := by
  intro c flawed holding
  have hsound : c.validate = .ok () := by decide
  have hflawed : flawed.validate =
      .error (.invalidConfiguration "max_message_len must be positive") := by
    decide
  obtain ⟨_, hload, _⟩ := load_json (FileTree.find_c (utf8 c.json))
  obtain ⟨_, _, hrefuse⟩ := load_json (FileTree.find_c (utf8 flawed.json))
  exact ⟨hsound, hload hsound, (hrefuse _ hflawed).1⟩

end ChannelConfig

end BoardQuery
