/-
Channels in memory.  Each end has a mailbox with the messages that wait for
it; sending puts a message at the back of the mailbox across, receiving takes
the one at the front.  Closing concerns one end alone and leaves the messages
where they are.
-/
import BoardQuery.Channel.Config
import BoardQuery.Channel.Message
import BoardQuery.Reply

namespace BoardQuery

/-- One end of a channel in memory, with the messages for it, oldest first. -/
structure Mailbox where
  waiting : List String := []
  isOpen : Bool := true
deriving DecidableEq, Repr

structure MailboxPair where
  config : ChannelConfig := {}
  a : Mailbox := {}
  b : Mailbox := {}
deriving DecidableEq, Repr

namespace MailboxPair

def box (p : MailboxPair) : Side → Mailbox
  | .a => p.a
  | .b => p.b

/-- The pair with the mailbox of one end replaced. -/
def withBox (p : MailboxPair) (side : Side) (box : Mailbox) : MailboxPair :=
  match side with
  | .a => { p with a := box }
  | .b => { p with b := box }

@[simp] theorem box_withBox (p : MailboxPair) (side : Side) (box : Mailbox) :
    (p.withBox side box).box side = box := by
  cases side <;> rfl

@[simp] theorem box_other_withBox (p : MailboxPair) (side : Side) (box : Mailbox) :
    (p.withBox side box).box side.other = p.box side.other := by
  cases side <;> rfl

@[simp] theorem box_withBox_other (p : MailboxPair) (side : Side) (box : Mailbox) :
    (p.withBox side.other box).box side = p.box side := by
  cases side <;> rfl

@[simp] theorem config_withBox (p : MailboxPair) (side : Side) (box : Mailbox) :
    (p.withBox side box).config = p.config := by
  cases side <;> rfl

def pending (p : MailboxPair) (side : Side) : Nat :=
  (p.box side).waiting.length

/-- Sends a message from one end, which is open. -/
def send (p : MailboxPair) (side : Side) (text : String) :
    Reply MailboxPair ChannelAnswer :=
  match checkMessage p.config.maxMessageLength.toNat text with
  | .error e => { answer := .error e, subject := p }
  | .ok () =>
      let across := p.box side.other
      { answer := .ok .done
        subject :=
          p.withBox side.other { across with waiting := across.waiting ++ [text] } }

/-- Takes the next message for one end, which is open. -/
def receive (p : MailboxPair) (side : Side) (size : Nat) :
    Reply MailboxPair ChannelAnswer :=
  match p.box side with
  | ⟨[], _⟩ => { answer := .ok (.received []), subject := p }
  | ⟨text :: waiting, isOpen⟩ =>
      { answer := .ok (.received ((utf8 text).take size))
        subject := p.withBox side ⟨waiting, isOpen⟩ }

def close (p : MailboxPair) (side : Side) : Reply MailboxPair ChannelAnswer :=
  { answer := .ok .done
    journal := [.closing (p.pending side)]
    subject := p.withBox side { p.box side with isOpen := false } }

/-- Performs a call on one end.  Once the end is closed only closing it again
and asking for its state succeed, and neither does anything. -/
def perform (p : MailboxPair) (side : Side) (call : ChannelCall) :
    Reply MailboxPair ChannelAnswer :=
  match call, (p.box side).isOpen with
  | .isOpen, isOpen => { answer := .ok (.isOpen isOpen), subject := p }
  | .close, false => { answer := .ok .done, subject := p }
  | .close, true => p.close side
  | _, false => { answer := .error .channelClosed, subject := p }
  | .send text, true => p.send side text
  | .reportAlive, true => p.send side p.config.heartbeat
  | .receive size, true => p.receive side size

end MailboxPair

end BoardQuery
