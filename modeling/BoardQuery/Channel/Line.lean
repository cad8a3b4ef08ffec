/-
Lines with a limit.  A reader looks for the next line that is not blank in the
bytes that are there.  It keeps at most one byte more than the limit of a line,
and passes over the rest of a line that turns out to be too long.  Bytes that
were looked at are gone, also when they were not enough.
-/
import BoardQuery.Text.Utf8

namespace BoardQuery

def newline : UInt8 := 0x0A

/-- What a reader finds when it looks for the next line: a line, the length of
one above the limit, that no whole line is there yet, or that none will come. -/
inductive Finding where
  | line (bytes : Bytes)
  | tooLong (length : Nat)
  | nothingYet
  | theEnd
deriving DecidableEq, Repr

def beforeNewline (bytes : Bytes) : Bytes × Bytes :=
  let line := bytes.takeWhile (· ≠ newline)
  (line, bytes.drop line.length)

theorem beforeNewline_line {line : Bytes} (hline : newline ∉ line) (rest : Bytes) :
    beforeNewline (line ++ newline :: rest) = (line, newline :: rest) := by
  induction line with
  | nil => simp [beforeNewline]
  | cons b line ih =>
      simp only [List.mem_cons, not_or] at hline
      have hb : b ≠ newline := fun h => hline.1 h.symm
      simpa [beforeNewline, hb] using ih hline.2

/-- Passes over the rest of a line of which `kept` bytes were read.  The last byte
passed over is taken for the newline, and so it is not counted. -/
def passOver (ended : Bool) (kept : Nat) (bytes : Bytes) : Finding × Bytes :=
  match beforeNewline bytes with
  | (skipped, _ :: rest) => (.tooLong (kept + skipped.length), rest)
  | (skipped, []) =>
      if ended then (.tooLong (kept + (skipped.length - 1)), [])
        else (.nothingYet, [])

/-- Looks for the next line of at most `limit` bytes, where `ended` says whether
the bytes are all that will ever come.  Gives what it found and the bytes behind. -/
def nextLine (limit : Nat) (ended : Bool) (bytes : Bytes) : Finding × Bytes :=
  let bytes := bytes.dropWhile (· = newline)
  let (line, after) := beforeNewline (bytes.take (limit + 1))
  match after with
  | _ :: _ => (.line line, bytes.drop (line.length + 1))
  | [] =>
      if limit < line.length then passOver ended line.length
        (bytes.drop line.length)
      else if ended = false then (.nothingYet, [])
      else if line = [] then (.theEnd, [])
      else (.line line, [])

theorem nextLine_newline (limit : Nat) (ended : Bool) (bytes : Bytes) :
    nextLine limit ended (newline :: bytes) = nextLine limit ended bytes := by
  simp [nextLine]

/-- Looks for the next line under a limit of 64 bits.  The number of bytes to
ask for, which is one above the limit, has 64 bits as well.  Where it overflows
the reader asks for none, and takes what it gets for the end. -/
def findLine (limit : UInt64) (ended : Bool) (bytes : Bytes) : Finding × Bytes :=
  if limit + 1 = 0 then (.theEnd, bytes) else nextLine limit.toNat ended bytes

end BoardQuery
