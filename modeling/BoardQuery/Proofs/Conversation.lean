/-
Conversations.  The two ends of a channel are called in any order, and a record
keeps every call with the channel before it and the reply.  What an end has sent
can be read off the record, whatever kind of channel it is.
-/
import BoardQuery.Channel.Message
import BoardQuery.Reply
import Mathlib.Data.List.Basic

namespace BoardQuery

/-- A text that can be sent under a limit. -/
structure IsMessage (limit : Nat) (text : String) : Prop where
  nonempty : text ≠ ""
  single_line : '\n' ∉ text.toList
  length_le : text.utf8ByteSize ≤ limit

theorem checkMessage_eq_ok_iff {limit : Nat} {text : String} :
    checkMessage limit text = .ok () ↔ IsMessage limit text := by
  unfold checkMessage
  constructor
  · intro h
    by_cases hempty : text = ""
    · simp [hempty] at h
    · by_cases hline : '\n' ∈ text.toList
      · simp [String.isEmpty_iff, hempty, hline] at h
      · by_cases hlong : limit < text.utf8ByteSize
        · simp [String.isEmpty_iff, hempty, hline, hlong] at h
        · exact ⟨hempty, hline, Nat.not_lt.mp hlong⟩
  · rintro ⟨hempty, hline, hfits⟩
    simp [String.isEmpty_iff, hempty, hline, Nat.not_lt.mpr hfits]

/-- The message that a call is to send, if it is to send one. -/
def ChannelCall.message? (heartbeat : String) : ChannelCall → Option String
  | .send text => some text
  | .reportAlive => some heartbeat
  | _ => none

/-- The room that a call has for a message, if it asks for one. -/
def ChannelCall.room? : ChannelCall → Option Nat
  | .receive size => some size
  | _ => none

theorem ChannelCall.room?_of_message? {heartbeat text : String} {call : ChannelCall}
    (h : call.message? heartbeat = some text) : call.room? = none := by
  cases call <;> simp_all [message?, room?]

theorem Side.eq_or_eq_other (side s : Side) : s = side ∨ s = side.other := by
  cases side <;> cases s <;> simp [other]

structure Exchange (σ : Type) where
  side : Side
  call : ChannelCall
  before : σ
  reply : Reply σ ChannelAnswer

/-- The message that one end sent by an exchange, if it sent one. -/
def Exchange.sent? {σ : Type} (heartbeat : String) (side : Side) (x : Exchange σ) :
    Option String :=
  if x.side = side ∧ x.reply.answer = .ok .done then x.call.message? heartbeat
  else none

section Run

variable {σ : Type} (perform : σ → Side → ChannelCall → Reply σ ChannelAnswer)

def afterCalls (p : σ) : List (Side × ChannelCall) → σ
  | [] => p
  | (side, call) :: rest => afterCalls (perform p side call).subject rest

/-- The record of calls, one after the other. -/
def exchanges (p : σ) : List (Side × ChannelCall) → List (Exchange σ)
  | [] => []
  | (side, call) :: rest =>
      ⟨side, call, p, perform p side call⟩ ::
        exchanges (perform p side call).subject rest

variable {perform}

/-- What every single call keeps of the record so far and of the channel, any number
of calls keep. -/
theorem conversation_induction {motive : List (Exchange σ) → σ → Prop}
    (step : ∀ record p side call, motive record p →
      motive (record ++ [⟨side, call, p, perform p side call⟩])
        (perform p side call).subject)
    {p : σ} (h : motive [] p) (calls : List (Side × ChannelCall)) :
    motive (exchanges perform p calls) (afterCalls perform p calls) := by
  suffices hrun : ∀ record p, motive record p →
      motive (record ++ exchanges perform p calls)
        (afterCalls perform p calls) from hrun [] p h
  clear h p
  induction calls with
  | nil =>
      intro record p h
      simpa [exchanges, afterCalls] using h
  | cons first rest ih =>
      intro record p h
      obtain ⟨side, call⟩ := first
      have hrest := ih _ _ (step record p side call h)
      rwa [List.append_assoc] at hrest

/-- Every reply of a record is the reply to its call. -/
theorem reply_of_mem_exchanges {p : σ} {calls : List (Side × ChannelCall)}
    {x : Exchange σ} (hx : x ∈ exchanges perform p calls) :
    x.reply = perform x.before x.side x.call := by
  induction calls generalizing p with
  | nil => simp [exchanges] at hx
  | cons first rest ih =>
      rcases List.mem_cons.mp hx with rfl | hrest
      · rfl
      · exact ih hrest

end Run

end BoardQuery
