/-
Messages.  A message is a single line of text that is not empty and not above
the limit of its channel.  Calls and their answers are the same for every kind
of channel.
-/
import BoardQuery.Error
import BoardQuery.Text.Utf8

namespace BoardQuery

/-- Checks that a text is a message of at most `limit` bytes. -/
def checkMessage (limit : Nat) (text : String) : Except Error Unit :=
  if text.isEmpty then .error (.invalidMessage "messages must not be empty")
  else if '\n' ∈ text.toList then
    .error (.invalidMessage "messages must not contain newlines")
  else if limit < text.utf8ByteSize then
    .error (.messageTooLong text.utf8ByteSize limit)
  else .ok ()

inductive Side where
  | a
  | b
deriving DecidableEq, Repr

/-- The end across the connection. -/
def Side.other : Side → Side
  | .a => .b
  | .b => .a

@[simp] theorem Side.other_other (side : Side) : side.other.other = side := by
  cases side <;> rfl

@[simp] theorem Side.other_ne (side : Side) : side.other ≠ side := by
  cases side <;> decide

/-- The calls on one end of a channel.  To receive takes the next message and
hands over at most `size` bytes of it. -/
inductive ChannelCall where
  | send (text : String)
  | reportAlive
  | receive (size : Nat)
  | close
  | isOpen
deriving DecidableEq, Repr

/-- The answers to them.  What is received is empty if there was no message. -/
inductive ChannelAnswer where
  | done
  | received (bytes : Bytes)
  | isOpen (yes : Bool)
deriving DecidableEq, Repr

end BoardQuery
