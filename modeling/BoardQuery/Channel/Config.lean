/-
The configuration of a channel: where its socket is, how long a message may be
and what the channel sends as a sign of life.  A configuration can be changed
freely; only a sound one opens a channel on a socket.
-/
import BoardQuery.Error
import BoardQuery.Json.Quoted
import BoardQuery.Json.Record

namespace BoardQuery

structure ChannelConfig where
  socketPath : String := "/tmp/symquery-ui.sock"
  maxMessageLength : UInt64 := 4096
  heartbeat : String := "alive"
deriving DecidableEq, Repr

namespace ChannelConfig

/-- What keeps the configuration from opening a channel, if anything does. -/
def flaw? (c : ChannelConfig) : Option String :=
  if c.maxMessageLength = 0 then some "max_message_len must be positive"
  else if c.heartbeat.isEmpty ∨ '\n' ∈ c.heartbeat.toList then
    some "heartbeat must be a non-empty single line"
  else if c.maxMessageLength.toNat < c.heartbeat.utf8ByteSize then
    some (s!"heartbeat of {c.heartbeat.utf8ByteSize} bytes " ++
      s!"exceeds max_message_len {c.maxMessageLength}")
  else none

def validate (c : ChannelConfig) : Except Error Unit :=
  match c.flaw? with
  | none => .ok ()
  | some flaw => .error (.invalidConfiguration flaw)

def json (c : ChannelConfig) : String :=
  "\x7b\"socket_path\":" ++ quoteJson c.socketPath ++
    ",\"max_message_len\":" ++ toString c.maxMessageLength ++
    ",\"heartbeat\":" ++ quoteJson c.heartbeat ++ "\x7d"

def schema : Schema :=
  [("socket_path", .text), ("max_message_len", .count), ("heartbeat", .text)]

/-- The configuration with one of its members replaced. -/
def overlay (c : ChannelConfig) : String × Value → ChannelConfig
  | ("socket_path", .text path) => { c with socketPath := path }
  | ("max_message_len", .count length) => { c with maxMessageLength := length }
  | ("heartbeat", .text heartbeat) => { c with heartbeat := heartbeat }
  | _ => c

/-- The configuration that a record stands for: the defaults, with the members
of the record in their places. -/
def ofRecord (record : Record) : ChannelConfig :=
  record.members.foldl overlay {}

/-- Reads a configuration from JSON.  It is not checked. -/
def ofJson (bytes : Bytes) : Except Fault ChannelConfig :=
  readDocument schema (fun record => .ok (ofRecord record)) bytes

/-- Reads a configuration from the content of a file and checks it. -/
def ofFile (content : Bytes) : Except Error ChannelConfig :=
  match ofJson content with
  | .error fault => .error (.json fault)
  | .ok config => config.validate.map fun () => config

end ChannelConfig

end BoardQuery
