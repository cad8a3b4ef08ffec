/-
Passing over a JSON value of any kind.  The brackets that are open are kept on
a stack, so that values may be nested to any depth; a value is over when the
stack is empty.  Numbers need the right shape only, and texts only pieces that
are well formed.
-/
import BoardQuery.Json.Number

namespace BoardQuery

/-- A bracket that is open around a value. -/
inductive Bracket where
  | list
  | object
deriving DecidableEq, Repr

/-- What has to come next inside the open brackets: a value, a key with its
value, or a comma or a closing bracket. -/
inductive Expected where
  | value
  | member
  | more
deriving DecidableEq, Repr

def skipScalar : Bytes → Except Fault Bytes
  | [] => .error .truncated
  | b :: rest =>
      if b = 'n'.toUInt8 then skipWord (utf8 "ull") rest
      else if b = 't'.toUInt8 then skipWord (utf8 "rue") rest
      else if b = 'f'.toUInt8 then skipWord (utf8 "alse") rest
      else if b = '"'.toUInt8 then skipText rest
      else if b = '-'.toUInt8 ∨ isDigitByte b = true then skipNumber (b :: rest)
      else .error .malformed

def skipColon (bs : Bytes) : Except Fault Bytes :=
  match skipBlanks bs with
  | [] => .error .truncated
  | b :: rest => if b = ':'.toUInt8 then .ok rest else .error .malformed

def skipKey (bs : Bytes) : Except Fault Bytes :=
  match skipBlanks bs with
  | [] => .error .truncated
  | b :: rest =>
      if b = '"'.toUInt8 then
        match skipText rest with
        | .error fault => .error fault
        | .ok rest => skipColon rest
      else .error .malformed

theorem length_lt_of_skipScalar {bs rest : Bytes} (h : skipScalar bs = .ok rest) :
    rest.length < bs.length := by
  cases bs with
  | nil => simp [skipScalar] at h
  | cons b bs =>
      simp only [skipScalar] at h
      split at h
      · exact Nat.lt_succ_of_le (length_le_of_skipWord h)
      · split at h
        · exact Nat.lt_succ_of_le (length_le_of_skipWord h)
        · split at h
          · exact Nat.lt_succ_of_le (length_le_of_skipWord h)
          · split at h
            · exact Nat.lt_succ_of_lt (length_lt_of_skipText h)
            · split at h
              · exact length_lt_of_skipNumber h
              · simp at h

theorem length_lt_of_skipBlanks {bs rest : Bytes} {b : UInt8}
    (h : skipBlanks bs = b :: rest) :
    rest.length < bs.length := by
  have := length_skipBlanks_le bs
  rw [h, List.length_cons] at this
  exact this

theorem length_lt_of_skipColon {bs rest : Bytes} (h : skipColon bs = .ok rest) :
    rest.length < bs.length := by
  unfold skipColon at h
  split at h
  · simp at h
  · next heq =>
      split at h <;> simp only [Except.ok.injEq, reduceCtorEq] at h
      exact h ▸ length_lt_of_skipBlanks heq

theorem length_lt_of_skipKey {bs rest : Bytes} (h : skipKey bs = .ok rest) :
    rest.length < bs.length := by
  unfold skipKey at h
  split at h
  · simp at h
  · next heq =>
      have hblank := length_lt_of_skipBlanks heq
      split at h
      · split at h
        · simp at h
        · next htext =>
            have h₁ := length_lt_of_skipText htext
            have h₂ := length_lt_of_skipColon h
            omega
      · simp at h

/-- Passes over what is expected and then over all that is still open. -/
def skipOn (expected : Expected) (stack : List Bracket) (bs : Bytes) :
    Except Fault Bytes :=
  match expected, stack with
  | .value, stack =>
      match _h : skipBlanks bs with
      | [] => .error .truncated
      | b :: rest =>
          if b = '['.toUInt8 then
            match _h' : skipBlanks rest with
            | [] => .error .truncated
            | c :: inner =>
                if c = ']'.toUInt8 then skipOn .more stack inner
                else skipOn .value (.list :: stack) (c :: inner)
          else if b = '\x7b'.toUInt8 then
            match _h' : skipBlanks rest with
            | [] => .error .truncated
            | c :: inner =>
                if c = '\x7d'.toUInt8 then skipOn .more stack inner
                else skipOn .member (.object :: stack) (c :: inner)
          else
            match _h' : skipScalar (b :: rest) with
            | .error fault => .error fault
            | .ok rest => skipOn .more stack rest
  | .member, stack =>
      match _h : skipKey bs with
      | .error fault => .error fault
      | .ok rest => skipOn .value stack rest
  | .more, [] => .ok bs
  | .more, .list :: outer =>
      match _h : skipBlanks bs with
      | [] => .error .truncated
      | b :: rest =>
          if b = ','.toUInt8 then skipOn .value (.list :: outer) rest
          else if b = ']'.toUInt8 then skipOn .more outer rest
          else .error .malformed
  | .more, .object :: outer =>
      match _h : skipBlanks bs with
      | [] => .error .truncated
      | b :: rest =>
          if b = ','.toUInt8 then skipOn .member (.object :: outer) rest
          else if b = '\x7d'.toUInt8 then skipOn .more outer rest
          else .error .malformed
termination_by bs.length
decreasing_by
  all_goals try exact length_lt_of_skipBlanks ‹_›
  · exact Nat.lt_trans (length_lt_of_skipBlanks ‹skipBlanks rest = _›)
      (length_lt_of_skipBlanks ‹skipBlanks bs = _›)
  · have h₁ := length_skipBlanks_le rest
    have h₂ := length_lt_of_skipBlanks ‹skipBlanks bs = _›
    rw [‹skipBlanks rest = _›] at h₁
    exact Nat.lt_of_le_of_lt h₁ h₂
  · exact Nat.lt_trans (length_lt_of_skipBlanks ‹skipBlanks rest = _›)
      (length_lt_of_skipBlanks ‹skipBlanks bs = _›)
  · have h₁ := length_skipBlanks_le rest
    have h₂ := length_lt_of_skipBlanks ‹skipBlanks bs = _›
    rw [‹skipBlanks rest = _›] at h₁
    exact Nat.lt_of_le_of_lt h₁ h₂
  · have h₁ := length_skipBlanks_le bs
    have h₂ := length_lt_of_skipScalar ‹_›
    rw [‹skipBlanks bs = _›] at h₁
    exact Nat.lt_of_lt_of_le h₂ h₁
  · exact length_lt_of_skipKey ‹_›

def skipValue (bs : Bytes) : Except Fault Bytes :=
  skipOn .value [] bs

theorem length_le_of_skipOn {expected : Expected} {stack : List Bracket}
    {bs rest : Bytes} (h : skipOn expected stack bs = .ok rest) :
    rest.length ≤ bs.length := by
  fun_induction skipOn expected stack bs <;>
    grind [→ length_lt_of_skipBlanks, → length_lt_of_skipScalar,
      → length_lt_of_skipKey, length_skipBlanks_le]

end BoardQuery
