/-
Channels over a stream.  Each message is a line of its own.  A channel checks
what it sends and rejects lines above its limit; what its peer writes is up to
the peer, so what it receives are bytes.
-/
import BoardQuery.Channel.Config
import BoardQuery.Channel.Line
import BoardQuery.Channel.Message
import BoardQuery.Channel.Pipe
import BoardQuery.Reply

namespace BoardQuery

/-- What one end of a stream needs to be a channel. -/
structure Terminal where
  config : ChannelConfig := {}
  isOpen : Bool := true
deriving DecidableEq, Repr

/-- The terminal for a configuration, if the configuration is sound. -/
def Terminal.ofConfig (config : ChannelConfig) : Except Error Terminal :=
  config.validate.map fun () => { config }

/-- A channel over a stream, which is given as the channel sees it. -/
structure SocketChannel extends Terminal where
  stream : ByteStream := {}
deriving DecidableEq, Repr

/-- The parts in which a message is written, one after the other. -/
def frameParts (text : String) : List Bytes :=
  [utf8 text, [newline]]

namespace SocketChannel

/-- The channel over a stream, if the configuration is sound. -/
def ofStream (config : ChannelConfig) (stream : ByteStream) :
    Except Error SocketChannel :=
  (Terminal.ofConfig config).map fun terminal => { terminal with stream }

def limit (c : SocketChannel) : Nat :=
  c.config.maxMessageLength.toNat

/-- Sends a message; the channel is open.  Of a message for which there is too
little room the start stays in the stream. -/
def send (c : SocketChannel) (text : String) : Reply SocketChannel ChannelAnswer :=
  match checkMessage c.limit text with
  | .error e => { answer := .error e, subject := c }
  | .ok () =>
      let (written, outgoing) := c.stream.outgoing.writeEach (frameParts text)
      let answer : Except Error ChannelAnswer :=
        match written with
        | .error failure => .error (.system "send message" failure)
        | .ok () => .ok .done
      { answer, subject := { c with stream := { c.stream with outgoing } } }

/-- Takes the next message; the channel is open. -/
def receive (c : SocketChannel) (size : Nat) : Reply SocketChannel ChannelAnswer :=
  let incoming := c.stream.incoming
  let (finding, bytes) :=
    findLine c.config.maxMessageLength incoming.ended incoming.bytes
  let answer : Except Error ChannelAnswer :=
    match finding with
    | .line line => .ok (.received (line.take size))
    | .tooLong length => .error (.messageTooLong length c.limit)
    | .nothingYet => .error (.system "receive message" .wouldBlock)
    | .theEnd => .error .channelClosed
  { answer
    subject :=
      { c with stream := { c.stream with incoming := { incoming with bytes } } } }

def close (c : SocketChannel) : Reply SocketChannel ChannelAnswer :=
  { answer := .ok .done
    subject := { c with isOpen := false, stream := c.stream.shutDown } }

/-- Performs a call.  Once the channel is closed only closing it again and
asking for its state succeed, and neither does anything. -/
def perform (c : SocketChannel) (call : ChannelCall) :
    Reply SocketChannel ChannelAnswer :=
  match call, c.isOpen with
  | .isOpen, isOpen => { answer := .ok (.isOpen isOpen), subject := c }
  | .close, false => { answer := .ok .done, subject := c }
  | .close, true => c.close
  | _, false => { answer := .error .channelClosed, subject := c }
  | .send text, true => c.send text
  | .reportAlive, true => c.send c.config.heartbeat
  | .receive size, true => c.receive size

/-- Performs a call on the other end of the stream, which is no channel itself. -/
def peer (c : SocketChannel) (call : StreamCall) :
    Except SystemFailure Bytes × SocketChannel :=
  let (answer, stream) := c.stream.flipped.perform call
  (answer, { c with stream := stream.flipped })

end SocketChannel

/-- Two channels that are each other's peers, over a stream as `a` sees it. -/
structure SocketPair where
  a : Terminal := {}
  b : Terminal := {}
  stream : ByteStream := {}
deriving DecidableEq, Repr

namespace SocketPair

/-- Two channels over a stream, which is given as the first one sees it, if both
configurations are sound. -/
def ofConfigs (a b : ChannelConfig) (stream : ByteStream := {}) :
    Except Error SocketPair := do
  let a ← Terminal.ofConfig a
  let b ← Terminal.ofConfig b
  return { a, b, stream }

def channel (p : SocketPair) (side : Side) : SocketChannel :=
  match side with
  | .a => { p.a with stream := p.stream }
  | .b => { p.b with stream := p.stream.flipped }

def withChannel (p : SocketPair) (side : Side) (c : SocketChannel) : SocketPair :=
  match side with
  | .a => { p with a := c.toTerminal, stream := c.stream }
  | .b => { p with b := c.toTerminal, stream := c.stream.flipped }

@[simp] theorem withChannel_channel (p : SocketPair) (side : Side) :
    p.withChannel side (p.channel side) = p := by
  cases side <;> rfl

def perform (p : SocketPair) (side : Side) (call : ChannelCall) :
    Reply SocketPair ChannelAnswer :=
  ((p.channel side).perform call).on (p.withChannel side)

end SocketPair

end BoardQuery
