/-
Byte streams.  A pipe carries bytes one way and in order, until its writer
ends it; a stream is a pair of pipes, seen from one of its two ends.  No call
ever waits: a read that finds nothing yet fails, and so does a write that finds
too little room, after it has written what there is room for.  How much room a
write finds is up to the system, and so it is a parameter of the pipe.
-/
import BoardQuery.Error
import BoardQuery.Text.Utf8

namespace BoardQuery

/-- One direction of a stream: the bytes that were written and not yet read,
whether no more will come, and the room that the writes to come will find, one
after the other.  Behind the last of these there is always room. -/
structure Pipe where
  bytes : Bytes := []
  ended : Bool := false
  rooms : List Nat := []
deriving DecidableEq, Repr

namespace Pipe

/-- There is room for each of these parts, written in turn. -/
def HasRoom (p : Pipe) (parts : List Bytes) : Prop :=
  ∀ x ∈ p.rooms.zip parts, x.2.length ≤ x.1

instance (p : Pipe) (parts : List Bytes) : Decidable (p.HasRoom parts) :=
  inferInstanceAs (Decidable (∀ x ∈ p.rooms.zip parts, x.2.length ≤ x.1))

def put (p : Pipe) (bytes : Bytes) : Pipe :=
  { p with bytes := p.bytes ++ bytes }

/-- Writes bytes until none is left or there is no more room. -/
def write (p : Pipe) (bytes : Bytes) : Except SystemFailure Unit × Pipe :=
  if bytes = [] then (.ok (), p)
  else if p.ended then (.error .brokenPipe, p)
  else
    match p.rooms with
    | [] => (.ok (), p.put bytes)
    | room :: rooms =>
        let p := { p with rooms }
        if bytes.length ≤ room then (.ok (), p.put bytes)
        else (.error .wouldBlock, p.put (bytes.take room))

/-- Writes in turn, up to the first part that is not written whole. -/
def writeEach (p : Pipe) : List Bytes → Except SystemFailure Unit × Pipe
  | [] => (.ok (), p)
  | part :: rest =>
      match p.write part with
      | (.ok (), p) => p.writeEach rest
      | (.error failure, p) => (.error failure, p)

/-- Reads at most `size` bytes, none at the end of the pipe. -/
def read (p : Pipe) (size : Nat) : Except SystemFailure (Bytes × Pipe) :=
  if p.bytes = [] ∧ p.ended = false then .error .wouldBlock
  else .ok (p.bytes.take size, { p with bytes := p.bytes.drop size })

def finish (p : Pipe) : Pipe :=
  { p with ended := true }

end Pipe

inductive StreamCall where
  | write (bytes : Bytes)
  | read (size : Nat)
  | finish
deriving DecidableEq, Repr

/-- A stream as it is seen from one end. -/
structure ByteStream where
  incoming : Pipe := {}
  outgoing : Pipe := {}
deriving DecidableEq, Repr

namespace ByteStream

/-- The stream as it is seen from the other end. -/
def flipped (s : ByteStream) : ByteStream :=
  ⟨s.outgoing, s.incoming⟩

def shutDown (s : ByteStream) : ByteStream :=
  ⟨s.incoming.finish, s.outgoing.finish⟩

/-- Performs a call on one end.  Only a read gives bytes, and to finish ends
the direction away from this end. -/
def perform (s : ByteStream) : StreamCall → Except SystemFailure Bytes × ByteStream
  | .write bytes =>
      let (answer, outgoing) := s.outgoing.write bytes
      (answer.map fun () => [], { s with outgoing })
  | .read size =>
      match s.incoming.read size with
      | .error failure => (.error failure, s)
      | .ok (bytes, incoming) => (.ok bytes, { s with incoming })
  | .finish => (.ok [], { s with outgoing := s.outgoing.finish })

end ByteStream

end BoardQuery
