/-
Framing.  A peer writes a stream and hangs up; the receives after that take the
lines of the stream one after the other, whatever the stream is, and find the
channel closed behind the last one.
-/
import BoardQuery.Channel.Socket
import BoardQuery.Proofs.Lines
import Mathlib.Algebra.Order.Ring.Nat

namespace BoardQuery

/-- What can happen at a channel: a call on it, or a call on the other end. -/
inductive SocketEvent where
  | own (call : ChannelCall)
  | peer (call : StreamCall)
deriving DecidableEq, Repr

def Finding.answer (limit size : Nat) : Finding → Except Error ChannelAnswer
  | .line bytes => .ok (.received (bytes.take size))
  | .tooLong length => .error (.messageTooLong length limit)
  | .nothingYet => .error (.system "receive message" .wouldBlock)
  | .theEnd => .error .channelClosed

/-- What a receive with room for `size` bytes has to answer to the next line of
an ended stream, if there is one. -/
def Delivers (limit size : Nat) : Option Bytes → Except Error ChannelAnswer → Prop
  | none, answer => answer = .error .channelClosed
  | some line, answer =>
      if line.length ≤ limit then answer = .ok (.received (line.take size))
      else ∃ length, answer = .error (.messageTooLong length limit)

/-- The next line of an ended stream is delivered, and the lines after it are
left. -/
theorem delivers_nextLine (limit size : Nat) (bytes : Bytes) :
    Delivers limit size (lines bytes).head?
      ((nextLine limit true bytes).1.answer limit size) ∧
      lines (nextLine limit true bytes).2 = (lines bytes).tail := by
  induction bytes using stream_induction with
  | nil =>
      simp [nextLine_tail limit true List.not_mem_nil, Finding.ofTail,
        Finding.answer, Delivers]
  | blank rest ih => simpa only [lines_newline, nextLine_newline] using ih
  | tail tail hne htail =>
      rw [nextLine_tail limit true htail, lines_tail hne htail]
      by_cases hfits : tail.length ≤ limit
      · simp [Finding.ofTail, hne, hfits, Finding.answer, Delivers]
      · simp [Finding.ofTail, hne, hfits, Finding.answer, Delivers]
  | line line rest hne hline _ =>
      rw [nextLine_line limit true hne hline, lines_line hne hline]
      by_cases hfits : line.length ≤ limit
      · simp [Finding.ofLine, hfits, Finding.answer, Delivers]
      · simp [Finding.ofLine, hfits, Finding.answer, Delivers]

namespace SocketChannel

def after (c : SocketChannel) : SocketEvent → SocketChannel
  | .own call => (c.perform call).subject
  | .peer call => (c.peer call).2

def answers (c : SocketChannel) :
    List SocketEvent → List (Except Error ChannelAnswer)
  | [] => []
  | .own call :: events =>
      (c.perform call).answer :: (c.after (.own call)).answers events
  | .peer call :: events => (c.after (.peer call)).answers events

/-- The channel is open, has this limit, which is not the largest that there is, and
this is the pipe that it reads. -/
structure Hears (c : SocketChannel) (limit : Nat) (incoming : Pipe) : Prop where
  isOpen : c.isOpen = true
  limit_eq : c.limit = limit
  limit_lt : limit < 2 ^ 64 - 1
  incoming_eq : c.stream.incoming = incoming

theorem ofStream_eq_ok {config : ChannelConfig} (hconfig : config.validate = .ok ())
    (stream : ByteStream) : ofStream config stream = .ok { config, stream } := by
  simp [ofStream, Terminal.ofConfig, hconfig, Except.map]

theorem hears_new {config : ChannelConfig}
    (hlimit : config.maxMessageLength.toNat < 2 ^ 64 - 1) (stream : ByteStream) :
    Hears { config, stream } config.maxMessageLength.toNat stream.incoming :=
  ⟨rfl, rfl, hlimit, rfl⟩

namespace Hears

variable {c : SocketChannel} {limit : Nat} {bytes : Bytes} {incoming : Pipe}

theorem findLine_eq (h : c.Hears limit incoming) :
    findLine c.config.maxMessageLength = nextLine limit := by
  have hlimit : c.config.maxMessageLength.toNat = limit := h.limit_eq
  rw [BoardQuery.findLine_eq (by rw [hlimit]; exact h.limit_lt), hlimit]

theorem write (h : c.Hears limit { bytes }) (more : Bytes) :
    (c.after (.peer (.write more))).Hears limit { bytes := bytes ++ more } := by
  have hwritten : Pipe.write { bytes } more =
      (.ok (), { bytes := bytes ++ more }) := by
    by_cases hmore : more = []
    · simp [Pipe.write, hmore]
    · simp [Pipe.write, Pipe.put, hmore]
  refine ⟨h.isOpen, h.limit_eq, h.limit_lt, ?_⟩
  simp [after, peer, ByteStream.perform, ByteStream.flipped, h.incoming_eq,
    hwritten]

/-- After the peer has hung up nothing more will come. -/
theorem finish (h : c.Hears limit incoming) :
    (c.after (.peer .finish)).Hears limit incoming.finish := by
  refine ⟨h.isOpen, h.limit_eq, h.limit_lt, ?_⟩
  simp [after, peer, ByteStream.perform, ByteStream.flipped, h.incoming_eq]

/-- A receive answers what the reader of lines finds. -/
theorem answer_receive (h : c.Hears limit incoming) (size : Nat) :
    (c.perform (.receive size)).answer =
      (nextLine limit incoming.ended incoming.bytes).1.answer limit size := by
  simp only [perform, h.isOpen, receive, h.incoming_eq, h.findLine_eq, h.limit_eq]
  cases (nextLine limit incoming.ended incoming.bytes).1 <;> rfl

/-- A receive leaves the bytes behind what the reader of lines found. -/
theorem receive (h : c.Hears limit incoming) (size : Nat) :
    (c.after (.own (.receive size))).Hears limit
      { incoming with
        bytes := (nextLine limit incoming.ended incoming.bytes).2 } := by
  refine ⟨?_, ?_, h.limit_lt, ?_⟩
  · simp [after, perform, h.isOpen, SocketChannel.receive]
  · rw [← h.limit_eq]
    simp [after, perform, h.isOpen, SocketChannel.receive, SocketChannel.limit]
  · simp [after, perform, h.isOpen, SocketChannel.receive, h.incoming_eq,
      h.findLine_eq]

/-- The receives at the end of a stream take its lines one after the other. -/
theorem delivers_lines (h : c.Hears limit { bytes, ended := true })
    (sizes : List Nat) :
    (c.answers (sizes.map fun size => .own (.receive size))).length = sizes.length ∧
      ∀ (i size : Nat), sizes[i]? = some size →
        ∃ answer, (c.answers (sizes.map fun size => .own (.receive size)))[i]? =
          some answer ∧
          Delivers limit size (lines bytes)[i]? answer := by
  induction sizes generalizing c bytes with
  | nil => simp [answers]
  | cons size sizes ih =>
      obtain ⟨hfirst, hrest⟩ := delivers_nextLine limit size bytes
      obtain ⟨hlength, hothers⟩ := ih (h.receive size)
      simp only [List.map_cons, answers, List.length_cons]
      refine ⟨by rw [hlength], ?_⟩
      intro i room hroom
      cases i with
      | zero =>
          simp only [List.getElem?_cons_zero, Option.some.injEq] at hroom
          subst hroom
          refine ⟨_, List.getElem?_cons_zero, ?_⟩
          rw [h.answer_receive, ← List.head?_eq_getElem?]
          exact hfirst
      | succ i =>
          rw [List.getElem?_cons_succ] at hroom
          rw [List.getElem?_cons_succ, ← List.getElem?_tail, ← hrest]
          exact hothers i room hroom

end Hears

/-- Whatever the peer of a sound channel writes before it hangs up, the receives
after that answer with the lines of it, each in its turn and cut to the room
there is for it, or refused if it is above the limit; behind the last line the
channel is closed.  Every receive comes to its answer after finitely many passes
over blank lines. -/
theorem receive_frames_stream {config : ChannelConfig}
    (hconfig : config.validate = .ok ())
    (hlimit : config.maxMessageLength.toNat < 2 ^ 64 - 1) (outgoing : Pipe)
    (stream : Bytes) (sizes : List Nat) :
    let limit := config.maxMessageLength.toNat
    ∃ c, ofStream config { outgoing } = .ok c ∧
      let answers := c.answers (.peer (.write stream) :: .peer .finish ::
        sizes.map fun size => .own (.receive size))
      answers.length = sizes.length ∧
      (∀ (i size : Nat), sizes[i]? = some size →
        ∃ answer, answers[i]? = some answer ∧
          Delivers limit size (lines stream)[i]? answer) ∧
      ∀ (ended : Bool) (bytes : Bytes),
        Reads limit ended bytes (nextLine limit ended bytes) := by
  intro limit
  refine ⟨_, ofStream_eq_ok hconfig { outgoing }, ?_⟩
  have hnew := hears_new hlimit { outgoing }
  obtain ⟨hlength, hlines⟩ := (hnew.write stream).finish.delivers_lines sizes
  exact ⟨hlength, hlines, reads_nextLine limit⟩

/-- A blank line, a line at the limit, one above it, and the start of one for which
there is little room. -/
theorem receive_frames_stream_short :
    let config : ChannelConfig := { maxMessageLength := 5 }
    let stream := utf8 "\nalpha\nletter\nend"
    config.validate = .ok () ∧ config.maxMessageLength.toNat < 2 ^ 64 - 1 ∧
    ∃ c, ofStream config {} = .ok c ∧
      let answers := c.answers (.peer (.write stream) :: .peer .finish ::
        [9, 9, 2, 9].map fun size => .own (.receive size))
      answers[0]? = some (.ok (.received (utf8 "alpha"))) ∧
      (∃ length, answers[1]? = some (.error (.messageTooLong length 5))) ∧
      answers[2]? = some (.ok (.received (utf8 "en"))) ∧
      answers[3]? = some (.error .channelClosed) := by
  intro config stream
  have hconfig : config.validate = .ok () := by decide
  have hlimit : config.maxMessageLength.toNat < 2 ^ 64 - 1 := by decide
  have hlines : lines stream = [utf8 "alpha", utf8 "letter", utf8 "end"] := by
    decide
  obtain ⟨c, hc, _, hdelivers, _⟩ :=
    receive_frames_stream hconfig hlimit {} stream [9, 9, 2, 9]
  rw [hlines] at hdelivers
  obtain ⟨_, hfirst, rfl⟩ := hdelivers 0 9 rfl
  obtain ⟨_, hsecond, length, rfl⟩ := hdelivers 1 9 rfl
  obtain ⟨_, hthird, rfl⟩ := hdelivers 2 2 rfl
  obtain ⟨_, hfourth, rfl⟩ := hdelivers 3 9 rfl
  exact ⟨hconfig, hlimit, c, hc, hfirst, ⟨length, hsecond⟩, hthird, hfourth⟩

end SocketChannel

end BoardQuery
