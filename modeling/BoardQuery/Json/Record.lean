/-
Records with known members.  A record is written as an object, whose members
may come in any order and be mixed with unknown ones, or as a list, whose
elements are the members in the order of the schema; a list may be cut short.
A known member may be given only once.
-/
import BoardQuery.Json.Skip

namespace BoardQuery

/-- The type that a member is wanted in. -/
inductive Kind where
  | count
  | optionalCount
  | text
deriving DecidableEq, Repr

inductive Value where
  | count (n : UInt64)
  | null
  | text (text : String)
deriving DecidableEq, Repr

/-- The known members of a record, in the order of its list form. -/
abbrev Schema := List (String × Kind)

/-- The members that were given, in the order in which they came. -/
abbrev Members := List (String × Value)

/-- How a record was written. -/
inductive Form where
  | object
  | list
deriving DecidableEq, Repr

structure Record where
  form : Form
  members : Members
deriving DecidableEq, Repr

def Record.member? (r : Record) (name : String) : Option Value :=
  r.members.lookup name

/-- The fault of an attempt to read something that turns out to be of another
type. -/
def faultOf {α : Type} : Except Fault α → Fault
  | .ok _ => .unsuitable
  | .error fault => fault

/-- The fault of a value that is not of the wanted type.  Words, numbers and
texts are read before their type is held against them; of a bracket only its
presence counts. -/
def wrongKind : Bytes → Fault
  | [] => .truncated
  | b :: rest =>
      if b = 'n'.toUInt8 then faultOf (skipWord (utf8 "ull") rest)
      else if b = 't'.toUInt8 then faultOf (skipWord (utf8 "rue") rest)
      else if b = 'f'.toUInt8 then faultOf (skipWord (utf8 "alse") rest)
      else if b = '"'.toUInt8 then faultOf (readText rest)
      else if b = '-'.toUInt8 ∨ isDigitByte b = true then
        faultOf (readNumber (b :: rest))
      else if b = '['.toUInt8 ∨ b = '\x7b'.toUInt8 then .unsuitable
      else .malformed

def readCount (bs : Bytes) : Except Fault (UInt64 × Bytes) :=
  match skipBlanks bs with
  | [] => .error .truncated
  | b :: rest =>
      if b = '-'.toUInt8 ∨ isDigitByte b = true then
        match readNumber (b :: rest) with
        | .error fault => .error fault
        | .ok (none, _) => .error .unsuitable
        | .ok (some n, rest) => .ok (n, rest)
      else .error (wrongKind (b :: rest))

/-- Reads a value of the wanted type. -/
def readValue (kind : Kind) (bs : Bytes) : Except Fault (Value × Bytes) :=
  match kind with
  | .count => (readCount bs).map fun (n, rest) => (.count n, rest)
  | .optionalCount =>
      match skipBlanks bs with
      | [] => .error .truncated
      | b :: rest =>
          if b = 'n'.toUInt8 then (skipWord (utf8 "ull") rest).map fun rest =>
            (.null, rest)
          else (readCount (b :: rest)).map fun (n, rest) => (.count n, rest)
  | .text =>
      match skipBlanks bs with
      | [] => .error .truncated
      | b :: rest =>
          if b = '"'.toUInt8 then (readText rest).map fun (text, rest) =>
            (.text text, rest)
          else .error (wrongKind (b :: rest))

def readKey (bs : Bytes) : Except Fault (String × Bytes) :=
  match skipBlanks bs with
  | [] => .error .truncated
  | b :: rest => if b = '"'.toUInt8 then readText rest else .error .malformed

/-- Reads the colon and the value of the member `key`, after the members `found`. -/
def readMember (schema : Schema) (found : Members) (key : String) (bs : Bytes) :
    Except Fault (Members × Bytes) :=
  match schema.lookup key with
  | none => do
      let bs ← skipColon bs
      let rest ← skipValue bs
      return (found, rest)
  | some kind =>
      if (found.lookup key).isSome then .error .unsuitable
      else do
        let bs ← skipColon bs
        let (value, rest) ← readValue kind bs
        return (found ++ [(key, value)], rest)

/-- Reads the elements of a list form from where one may stand, `first` if none
has been read. -/
def readElements (first : Bool) (found : Members) :
    Schema → Bytes → Except Fault (Members × Bytes)
  | [], bs =>
      match skipBlanks bs with
      | [] => .error .truncated
      | b :: rest => if b = ']'.toUInt8 then .ok (found, rest)
          else .error .malformed
  | (name, kind) :: schema, bs =>
      match skipBlanks bs with
      | [] => .error .truncated
      | b :: rest =>
          if b = ']'.toUInt8 then .ok (found, rest)
          else if first then do
            let (value, rest) ← readValue kind (b :: rest)
            readElements false (found ++ [(name, value)]) schema rest
          else if b = ','.toUInt8 then
            match skipBlanks rest with
            | [] => .error .truncated
            | c :: rest =>
                if c = ']'.toUInt8 then .error .malformed
                else do
                  let (value, rest) ← readValue kind (c :: rest)
                  readElements false (found ++ [(name, value)]) schema rest
          else .error .malformed

theorem length_lt_of_readKey {bs rest : Bytes} {key : String}
    (h : readKey bs = .ok (key, rest)) :
    rest.length < bs.length := by
  unfold readKey at h
  split at h
  · simp at h
  · next heq =>
      split at h
      · exact Nat.lt_trans (length_lt_of_readText h) (length_lt_of_skipBlanks heq)
      · simp at h

theorem length_lt_of_readCount {bs rest : Bytes} {n : UInt64}
    (h : readCount bs = .ok (n, rest)) :
    rest.length < bs.length := by
  have hblank := length_skipBlanks_le bs
  unfold readCount at h
  split at h
  · simp at h
  · next heq =>
      split at h
      · split at h
        · simp at h
        · simp at h
        · next hnumber =>
            simp only [Except.ok.injEq, Prod.mk.injEq] at h
            have := length_lt_of_readNumber hnumber
            rw [heq] at hblank
            rw [← h.2]
            omega
      · simp at h

theorem length_lt_of_readValue {kind : Kind} {bs rest : Bytes} {value : Value}
    (h : readValue kind bs = .ok (value, rest)) : rest.length < bs.length := by
  have hblank := length_skipBlanks_le bs
  cases kind with
  | count =>
      cases hcount : readCount bs with
      | error fault => simp [readValue, hcount, Except.map] at h
      | ok pair =>
          simp only [readValue, hcount, Except.map, Except.ok.injEq,
            Prod.mk.injEq] at h
          exact h.2 ▸ length_lt_of_readCount hcount
  | optionalCount =>
      simp only [readValue] at h
      split at h
      · simp at h
      · next b tail heq =>
          rw [heq] at hblank
          split at h
          · cases hword : skipWord (utf8 "ull") tail with
            | error fault => simp [hword, Except.map] at h
            | ok after =>
                simp only [hword, Except.map, Except.ok.injEq, Prod.mk.injEq] at h
                have := length_le_of_skipWord hword
                rw [← h.2]
                simp only [List.length_cons] at hblank
                omega
          · cases hcount : readCount (b :: tail) with
            | error fault => simp [hcount, Except.map] at h
            | ok pair =>
                simp only [hcount, Except.map, Except.ok.injEq, Prod.mk.injEq] at h
                exact h.2 ▸ Nat.lt_of_lt_of_le (length_lt_of_readCount hcount)
                  hblank
  | text =>
      simp only [readValue] at h
      split at h
      · simp at h
      · next b tail heq =>
          rw [heq] at hblank
          split at h
          · cases htext : readText tail with
            | error fault => simp [htext, Except.map] at h
            | ok pair =>
                simp only [htext, Except.map, Except.ok.injEq, Prod.mk.injEq] at h
                have := length_lt_of_readText htext
                rw [← h.2]
                simp only [List.length_cons] at hblank
                omega
          · simp at h

theorem length_lt_of_readMember {schema : Schema} {found members : Members}
    {key : String} {bs rest : Bytes}
    (h : readMember schema found key bs = .ok (members, rest)) :
    rest.length < bs.length := by
  unfold readMember at h
  split at h
  · cases hcolon : skipColon bs with
    | error fault => simp [hcolon, bind, Except.bind] at h
    | ok inner =>
        cases hvalue : skipValue inner with
        | error fault => simp [hcolon, hvalue, bind, Except.bind] at h
        | ok after =>
            simp only [hcolon, hvalue, bind, Except.bind, pure, Except.pure,
              Except.ok.injEq, Prod.mk.injEq] at h
            have h₁ := length_lt_of_skipColon hcolon
            have h₂ := length_le_of_skipOn hvalue
            rw [← h.2]
            omega
  · next kind _ =>
      split at h
      · simp at h
      · cases hcolon : skipColon bs with
        | error fault => simp [hcolon, bind, Except.bind] at h
        | ok inner =>
            cases hvalue : readValue kind inner with
            | error fault => simp [hcolon, hvalue, bind, Except.bind] at h
            | ok pair =>
                simp only [hcolon, hvalue, bind, Except.bind, pure, Except.pure,
                  Except.ok.injEq, Prod.mk.injEq] at h
                have h₁ := length_lt_of_skipColon hcolon
                have h₂ := length_lt_of_readValue hvalue
                rw [← h.2]
                omega

/-- Reads members from a key on, after the members `found`, up to the closing
bracket. -/
def readMembers (schema : Schema) (found : Members) (bs : Bytes) :
    Except Fault (Members × Bytes) :=
  match _hkey : readKey bs with
  | .error fault => .error fault
  | .ok (key, inner) =>
      match _hmember : readMember schema found key inner with
      | .error fault => .error fault
      | .ok (found, after) =>
          match _hblank : skipBlanks after with
          | [] => .error .truncated
          | b :: rest =>
              if b = ','.toUInt8 then readMembers schema found rest
              else if b = '\x7d'.toUInt8 then .ok (found, rest)
              else .error .malformed
termination_by bs.length
decreasing_by
  have h₁ := length_lt_of_readKey ‹_›
  have h₂ := length_lt_of_readMember ‹_›
  have h₃ := length_lt_of_skipBlanks ‹_›
  omega

def readRecord (schema : Schema) (bs : Bytes) : Except Fault (Record × Bytes) :=
  match skipBlanks bs with
  | [] => .error .truncated
  | b :: rest =>
      if b = '['.toUInt8 then
        (readElements true [] schema rest).map fun (members, rest) =>
          (⟨.list, members⟩, rest)
      else if b = '\x7b'.toUInt8 then
        match skipBlanks rest with
        | [] => .error .truncated
        | c :: inner =>
            if c = '\x7d'.toUInt8 then .ok (⟨.object, []⟩, inner)
            else
              (readMembers schema [] (c :: inner)).map fun (members, rest) =>
                (⟨.object, members⟩, rest)
      else .error (wrongKind (b :: rest))

/-- Reads a text that is one record and nothing else.  What the record stands for
is decided before anything behind it is looked at. -/
def readDocument {α : Type} (schema : Schema) (convert : Record → Except Fault α)
    (bs : Bytes) :
    Except Fault α := do
  let (record, rest) ← readRecord schema bs
  let value ← convert record
  if skipBlanks rest = [] then return value else throw .malformed

end BoardQuery
