/-
Delivery of single messages over a stream.  A channel sends a message in a frame
that no message can break, so a channel that receives takes whole frames.
-/
import BoardQuery.Proofs.Conversation
import BoardQuery.Proofs.Framing

namespace BoardQuery

namespace Pipe

variable {p : Pipe} {parts : List Bytes}

theorem write_of_room {bytes : Bytes} (hne : bytes ≠ []) (hended : p.ended = false)
    (hroom : ∀ room ∈ p.rooms.head?, bytes.length ≤ room) :
    p.write bytes = (.ok (), { p with rooms := p.rooms.tail }.put bytes) := by
  obtain ⟨waiting, ended, rooms⟩ := p
  obtain rfl : ended = false := hended
  cases rooms with
  | nil => simp [write, hne]
  | cons room rooms =>
      have hfits : bytes.length ≤ room := by simpa using hroom
      simp [write, hne, hfits]

theorem write_of_no_room {bytes : Bytes} (hne : bytes ≠ [])
    (hended : p.ended = false)
    (hroom : ¬∀ room ∈ p.rooms.head?, bytes.length ≤ room) :
    (p.write bytes).1 = .error .wouldBlock := by
  obtain ⟨waiting, ended, rooms⟩ := p
  obtain rfl : ended = false := hended
  cases rooms with
  | nil => simp at hroom
  | cons room rooms =>
      have hfits : ¬bytes.length ≤ room := by simpa using hroom
      simp [write, hne, hfits]

theorem hasRoom_cons {part : Bytes} :
    p.HasRoom (part :: parts) ↔
      (∀ room ∈ p.rooms.head?, part.length ≤ room) ∧
        { p with rooms := p.rooms.tail }.HasRoom parts := by
  obtain ⟨waiting, ended, rooms⟩ := p
  cases rooms with
  | nil => simp [HasRoom]
  | cons room rooms => simp [HasRoom]

theorem ended_write (p : Pipe) (bytes : Bytes) :
    (p.write bytes).2.ended = p.ended := by
  unfold write
  repeat' split
  all_goals simp [put]

theorem ended_writeEach (p : Pipe) (parts : List Bytes) :
    (p.writeEach parts).2.ended = p.ended := by
  induction parts generalizing p with
  | nil => rfl
  | cons part parts ih =>
      rw [← p.ended_write part, writeEach]
      rcases p.write part with ⟨_ | _, after⟩
      · rfl
      · exact ih after

theorem writeEach_of_ended {part : Bytes} (hne : part ≠ [])
    (hended : p.ended = true) :
    p.writeEach (part :: parts) = (.error .brokenPipe, p) := by
  simp [writeEach, write, hne, hended]

/-- Where there is room all parts are written, one behind the other. -/
theorem writeEach_of_hasRoom (hne : [] ∉ parts) (hended : p.ended = false)
    (hroom : p.HasRoom parts) :
    p.writeEach parts =
      (.ok (), { p with
        bytes := p.bytes ++ parts.flatten
        rooms := p.rooms.drop parts.length }) := by
  induction parts generalizing p with
  | nil => simp [writeEach]
  | cons part parts ih =>
      rw [List.mem_cons, not_or] at hne
      obtain ⟨hfirst, hrest⟩ := hasRoom_cons.mp hroom
      have hpart : part ≠ [] := Ne.symm hne.1
      rw [writeEach, write_of_room hpart hended hfirst]
      have hafter :=
        ih (p := { p with rooms := p.rooms.tail }.put part) hne.2 hended hrest
      simpa [put, List.append_assoc, Nat.add_comm] using hafter

/-- Where there is too little room the writing stops. -/
theorem writeEach_of_not_hasRoom (hne : [] ∉ parts) (hended : p.ended = false)
    (hroom : ¬p.HasRoom parts) : (p.writeEach parts).1 = .error .wouldBlock := by
  induction parts generalizing p with
  | nil => simp [HasRoom] at hroom
  | cons part parts ih =>
      rw [List.mem_cons, not_or] at hne
      have hpart : part ≠ [] := Ne.symm hne.1
      by_cases hfirst : ∀ room ∈ p.rooms.head?, part.length ≤ room
      · have hrest : ¬{ p with rooms := p.rooms.tail }.HasRoom parts :=
          fun h => hroom (hasRoom_cons.mpr ⟨hfirst, h⟩)
        rw [writeEach, write_of_room hpart hended hfirst]
        exact ih (p := { p with rooms := p.rooms.tail }.put part) hne.2 hended hrest
      · have hblocked := write_of_no_room hpart hended hfirst
        rw [writeEach]
        generalize p.write part = result at hblocked
        obtain ⟨answer, after⟩ := result
        obtain rfl : answer = .error .wouldBlock := hblocked
        rfl

end Pipe

def frame (text : String) : Bytes :=
  utf8 text ++ [newline]

/-- What a receive with room for `size` bytes answers to a message. -/
def delivery (limit size : Nat) (text : String) : Except Error ChannelAnswer :=
  if text.utf8ByteSize ≤ limit then .ok (.received ((utf8 text).take size))
  else .error (.messageTooLong text.utf8ByteSize limit)

/-- Only the line feed has the byte of a newline in it. -/
theorem eq_of_newline_mem_utf8EncodeChar {c : Char}
    (h : newline ∈ String.utf8EncodeChar c) :
    c = '\n' := by
  rcases toNat_of_mem_utf8EncodeChar h with hcode | hhigh
  · exact Char.toNat_inj.mp hcode.symm
  · exact absurd hhigh (by decide)

namespace IsMessage

variable {limit : Nat} {text : String}

theorem newline_notMem_utf8 (h : IsMessage limit text) : newline ∉ utf8 text := by
  intro hmem
  rw [utf8_eq_flatMap, List.mem_flatMap] at hmem
  obtain ⟨c, hc, hbyte⟩ := hmem
  exact h.single_line (eq_of_newline_mem_utf8EncodeChar hbyte ▸ hc)

theorem utf8_ne_nil (h : IsMessage limit text) : utf8 text ≠ [] := by
  intro hnil
  apply h.nonempty
  rw [← String.utf8ByteSize_eq_zero_iff, ← length_utf8, hnil, List.length_nil]

theorem nil_notMem_frameParts (h : IsMessage limit text) :
    [] ∉ frameParts text := by
  simp [frameParts, h.utf8_ne_nil.symm]

/-- A reader finds a message that was sent, and nothing of it is left. -/
theorem nextLine_frame (h : IsMessage limit text) (limit' : Nat) (ended : Bool)
    (rest : Bytes) :
    nextLine limit' ended (frame text ++ rest) =
      (Finding.ofLine limit' (utf8 text), rest) := by
  rw [frame, List.append_assoc, List.singleton_append]
  exact nextLine_line limit' ended h.utf8_ne_nil h.newline_notMem_utf8 rest

end IsMessage

theorem answer_ofLine_utf8 (limit size : Nat) (text : String) :
    (Finding.ofLine limit (utf8 text)).answer limit size =
      delivery limit size text := by
  unfold Finding.ofLine delivery
  rw [length_utf8]
  split_ifs <;> rfl

namespace SocketChannel

/-- Everything that a call can do. -/
inductive Effect (c : SocketChannel) :
    ChannelCall → Reply SocketChannel ChannelAnswer → Prop
  | refused {call : ChannelCall} {e : Error}
      (hroom : call.room? ≠ none → e = .channelClosed) :
      Effect c call { answer := .error e, subject := c }
  | told : Effect c .isOpen { answer := .ok (.isOpen c.isOpen), subject := c }
  | closed_again : Effect c .close { answer := .ok .done, subject := c }
  | closed : Effect c .close c.close
  | sent {call : ChannelCall} {text : String}
      (hcall : call.message? c.config.heartbeat = some text)
      (htext : IsMessage c.limit text)
      (hended : c.stream.outgoing.ended = false)
      (hroom : c.stream.outgoing.HasRoom (frameParts text)) :
      Effect c call
        { answer := .ok .done
          subject := { c with stream := { c.stream with
            outgoing := { c.stream.outgoing with
              bytes := c.stream.outgoing.bytes ++ frame text
              rooms := c.stream.outgoing.rooms.drop 2 } } } }
  | cut_short {call : ChannelCall} {text : String}
      (hcall : call.message? c.config.heartbeat = some text)
      (htext : IsMessage c.limit text)
      (hended : c.stream.outgoing.ended = false)
      (hroom : ¬c.stream.outgoing.HasRoom (frameParts text)) :
      Effect c call
        { answer := .error (.system "send message" .wouldBlock)
          subject := { c with stream := { c.stream with
            outgoing := (c.stream.outgoing.writeEach (frameParts text)).2 } } }
  | received (size : Nat) (hopen : c.isOpen = true) :
      Effect c (.receive size) (c.receive size)

section Effect

variable {c : SocketChannel}

theorem effect_send {call : ChannelCall} {text : String}
    (hcall : call.message? c.config.heartbeat = some text) :
    Effect c call (c.send text) := by
  have hroom := ChannelCall.room?_of_message? hcall
  unfold send
  split
  · exact .refused fun h => absurd hroom h
  · next hcheck =>
      have htext := checkMessage_eq_ok_iff.mp hcheck
      have hparts := htext.nil_notMem_frameParts
      cases hended : c.stream.outgoing.ended with
      | true =>
          rw [frameParts, Pipe.writeEach_of_ended htext.utf8_ne_nil hended]
          exact .refused fun h => absurd hroom h
      | false =>
          by_cases hfits : c.stream.outgoing.HasRoom (frameParts text)
          · have hwritten := Pipe.writeEach_of_hasRoom hparts hended hfits
            rw [hwritten]
            simpa [frameParts, frame] using Effect.sent hcall htext hended hfits
          · have hblocked := Pipe.writeEach_of_not_hasRoom hparts hended hfits
            simp only [hblocked]
            exact .cut_short hcall htext hended hfits

theorem effect_perform (c : SocketChannel) (call : ChannelCall) :
    Effect c call (c.perform call) := by
  cases hopen : c.isOpen with
  | false =>
      cases call with
      | isOpen => exact .told
      | close => simpa [perform, hopen] using Effect.closed_again
      | send text => simpa [perform, hopen] using Effect.refused fun _ => rfl
      | reportAlive => simpa [perform, hopen] using Effect.refused fun _ => rfl
      | receive size => simpa [perform, hopen] using Effect.refused fun _ => rfl
  | true =>
      cases call with
      | isOpen => exact .told
      | close => simpa [perform, hopen] using Effect.closed
      | send text => simpa [perform, hopen] using effect_send rfl
      | reportAlive => simpa [perform, hopen] using effect_send rfl
      | receive size => simpa [perform, hopen] using Effect.received size hopen

end Effect

section Receive

variable {c : SocketChannel} (hlimit : c.limit < 2 ^ 64 - 1)

include hlimit

/-- A receive takes the first of the messages that are under way. -/
theorem receive_frame {sent : Nat} {text : String} {rest : Bytes}
    (htext : IsMessage sent text)
    (hbytes : c.stream.incoming.bytes = frame text ++ rest) (size : Nat) :
    c.receive size =
      { answer := delivery c.limit size text
        subject := { c with stream := { c.stream with
          incoming := { c.stream.incoming with bytes := rest } } } } := by
  have hfound := htext.nextLine_frame c.limit c.stream.incoming.ended rest
  rw [limit, ← findLine_eq hlimit] at hfound
  simp only [receive, hbytes, hfound, ← answer_ofLine_utf8, limit]
  cases Finding.ofLine c.config.maxMessageLength.toNat (utf8 text) <;> rfl

/-- A receive with nothing under way changes nothing. -/
theorem receive_nothing (hbytes : c.stream.incoming.bytes = []) (size : Nat) :
    c.receive size =
      { answer := .error (if c.stream.incoming.ended then .channelClosed
          else .system "receive message" .wouldBlock)
        subject := c } := by
  obtain ⟨terminal, ⟨bytes, ended, rooms⟩, outgoing⟩ := c
  obtain rfl : bytes = [] := hbytes
  rw [receive, findLine_eq hlimit, nextLine_tail _ _ List.not_mem_nil,
    Finding.ofTail]
  cases ended <;> simp

end Receive

/-- Under the largest limit that there is a receive finds the channel closed, and it
changes nothing. -/
theorem receive_of_overflow {c : SocketChannel} (hlimit : ¬c.limit < 2 ^ 64 - 1)
    (size : Nat) :
    c.receive size = { answer := .error .channelClosed, subject := c } := by
  rw [receive, findLine_of_not_lt hlimit]

end SocketChannel

/-- Whether a receive got to a message, be it handed over or refused. -/
def isAnswer : Except Error ChannelAnswer → Bool
  | .error .channelClosed => false
  | .error (.system _ .wouldBlock) => false
  | _ => true

@[simp] theorem isAnswer_delivery (limit size : Nat) (text : String) :
    isAnswer (delivery limit size text) = true := by
  unfold delivery
  split_ifs <;> rfl

end BoardQuery
