/-
Conservation of messages.  Whatever the two ends of a channel in memory are told
to do, the messages that one end took and those that wait for it are, in order,
the messages that the other end sent.
-/
import BoardQuery.Channel.Mailbox
import BoardQuery.Proofs.Conversation

namespace BoardQuery

namespace MailboxPair

def limit (p : MailboxPair) : Nat :=
  p.config.maxMessageLength.toNat

/-- Everything that a call on one end can do. -/
inductive Effect (p : MailboxPair) (side : Side) :
    ChannelCall → Reply MailboxPair ChannelAnswer → Prop
  | refused (call : ChannelCall) (e : Error) :
      Effect p side call { answer := .error e, subject := p }
  | told : Effect p side .isOpen
      { answer := .ok (.isOpen (p.box side).isOpen), subject := p }
  | closed_again : Effect p side .close { answer := .ok .done, subject := p }
  | closed : Effect p side .close (p.close side)
  | sent {call : ChannelCall} {text : String}
      (hcall : call.message? p.config.heartbeat = some text)
      (htext : IsMessage p.limit text) :
      Effect p side call
        { answer := .ok .done
          subject := p.withBox side.other
            { p.box side.other with
              waiting := (p.box side.other).waiting ++ [text] } }
  | nothing (size : Nat) (hwaiting : (p.box side).waiting = []) :
      Effect p side (.receive size) { answer := .ok (.received []), subject := p }
  | received (size : Nat) {text : String} {waiting : List String}
      (hwaiting : (p.box side).waiting = text :: waiting) :
      Effect p side (.receive size)
        { answer := .ok (.received ((utf8 text).take size))
          subject := p.withBox side { p.box side with waiting } }

section Effect

variable {p : MailboxPair} {side : Side}

theorem effect_send {call : ChannelCall} {text : String}
    (hcall : call.message? p.config.heartbeat = some text) :
    Effect p side call (p.send side text) := by
  unfold send
  split
  · exact .refused call _
  · next hcheck => exact .sent hcall (checkMessage_eq_ok_iff.mp hcheck)

theorem effect_receive (size : Nat) :
    Effect p side (.receive size) (p.receive side size) := by
  unfold receive
  split
  · next hbox => exact .nothing size (by rw [hbox])
  · next text waiting isOpen hbox =>
      have hwaiting : (p.box side).waiting = text :: waiting := by rw [hbox]
      have hreceived := Effect.received size hwaiting
      rwa [hbox] at hreceived

theorem perform_of_closed (hclosed : (p.box side).isOpen = false)
    {call : ChannelCall} (hclose : call ≠ .close) (hask : call ≠ .isOpen) :
    p.perform side call = { answer := .error .channelClosed, subject := p } := by
  cases call with
  | close => contradiction
  | isOpen => contradiction
  | send text => simp [perform, hclosed]
  | reportAlive => simp [perform, hclosed]
  | receive size => simp [perform, hclosed]

/-- A closed end can be closed again, which does nothing. -/
theorem perform_close_of_closed (hclosed : (p.box side).isOpen = false) :
    p.perform side .close = { answer := .ok .done, subject := p } := by
  simp [perform, hclosed]

theorem effect_perform (p : MailboxPair) (side : Side) (call : ChannelCall) :
    Effect p side call (p.perform side call) := by
  cases hopen : (p.box side).isOpen with
  | false =>
      by_cases hclose : call = .close
      · subst hclose
        rw [perform_close_of_closed hopen]
        exact .closed_again
      · by_cases hask : call = .isOpen
        · subst hask
          exact .told
        · rw [perform_of_closed hopen hclose hask]
          exact .refused call _
  | true =>
      cases call with
      | isOpen => exact .told
      | close => simpa [perform, hopen] using Effect.closed
      | send text => simpa [perform, hopen] using effect_send rfl
      | reportAlive => simpa [perform, hopen] using effect_send rfl
      | receive size => simpa [perform, hopen] using effect_receive size

end Effect

/-- The message that an exchange took out of the mailbox of one end, if it took
one. -/
def taken? (side : Side) (x : Exchange MailboxPair) : Option String :=
  if x.side = side ∧ x.call.room?.isSome ∧ x.reply.failed = false then
    (x.before.box side).waiting.head?
  else none

/-- A single call conserves the messages for each end: those that waited and the one
that came are the one that was taken and those that wait. -/
theorem perform_conserves (p : MailboxPair) (side : Side) (call : ChannelCall)
    (s : Side) :
    let x : Exchange MailboxPair := ⟨side, call, p, p.perform side call⟩
    (p.box s).waiting ++ [x].filterMap (Exchange.sent? p.config.heartbeat s.other) =
      [x].filterMap (taken? s) ++ (x.reply.subject.box s).waiting := by
  intro x
  have heffect := effect_perform p side call
  simp only [x]
  generalize p.perform side call = r at heffect ⊢
  cases heffect with
  | refused call e => simp [Exchange.sent?, taken?, Reply.failed]
  | told => simp [Exchange.sent?, taken?, ChannelCall.room?]
  | closed_again =>
      simp [Exchange.sent?, taken?, ChannelCall.room?, ChannelCall.message?]
  | closed =>
      rcases side.eq_or_eq_other s with rfl | rfl
      all_goals
        simp [Exchange.sent?, taken?, ChannelCall.room?, ChannelCall.message?, close]
  | sent hcall htext =>
      have hroom := ChannelCall.room?_of_message? hcall
      rcases side.eq_or_eq_other s with rfl | rfl
      · simp [Exchange.sent?, taken?, hroom, (Side.other_ne _).symm]
      · simp [Exchange.sent?, taken?, hroom, hcall]
  | nothing size hwaiting =>
      rcases side.eq_or_eq_other s with rfl | rfl
      · simp [Exchange.sent?, taken?, hwaiting]
      · simp [Exchange.sent?, taken?, (Side.other_ne _).symm]
  | received size hwaiting =>
      rcases side.eq_or_eq_other s with rfl | rfl
      · simp [Exchange.sent?, taken?, Reply.failed, ChannelCall.room?, hwaiting]
      · simp [Exchange.sent?, taken?, (Side.other_ne _).symm]

theorem config_perform (p : MailboxPair) (side : Side) (call : ChannelCall) :
    (p.perform side call).subject.config = p.config := by
  have heffect := effect_perform p side call
  generalize p.perform side call = r at heffect ⊢
  cases heffect with
  | closed => simp [close]
  | sent _ _ => simp
  | received _ _ => simp
  | _ => rfl

theorem subject_perform_of_error {p : MailboxPair} {side : Side}
    {call : ChannelCall} {e : Error} (h : (p.perform side call).answer = .error e) :
    (p.perform side call).subject = p := by
  have heffect := effect_perform p side call
  generalize p.perform side call = r at heffect h ⊢
  cases heffect with
  | closed => simp [close] at h
  | sent _ _ => simp at h
  | received _ _ => simp at h
  | _ => rfl

/-- Everything that a call on either end can do to the mailbox of one: nothing,
close it, put a message at the back, or take the one at the front. -/
theorem box_perform (p : MailboxPair) (side : Side) (call : ChannelCall)
    (s : Side) :
    let box := (p.perform side call).subject.box s
    box = p.box s ∨ box = { p.box s with isOpen := false } ∨
      (∃ text, IsMessage p.limit text ∧
        box = { p.box s with waiting := (p.box s).waiting ++ [text] }) ∨
      ∃ text waiting, (p.box s).waiting = text :: waiting ∧
        box = { p.box s with waiting } := by
  have heffect := effect_perform p side call
  generalize p.perform side call = r at heffect ⊢
  cases heffect with
  | closed =>
      rcases side.eq_or_eq_other s with rfl | rfl
      · exact .inr (.inl (by simp [close]))
      · exact .inl (by simp [close])
  | @sent _ text _ htext =>
      rcases side.eq_or_eq_other s with rfl | rfl
      · exact .inl (by simp)
      · exact .inr (.inr (.inl ⟨text, htext, by simp⟩))
  | @received _ text waiting hwaiting =>
      rcases side.eq_or_eq_other s with rfl | rfl
      · exact .inr (.inr (.inr ⟨text, waiting, hwaiting, by simp⟩))
      · exact .inl (by simp)
  | _ => exact .inl rfl

theorem isOpen_perform_of_closed {p : MailboxPair} {s : Side}
    (hclosed : (p.box s).isOpen = false) (side : Side) (call : ChannelCall) :
    ((p.perform side call).subject.box s).isOpen = false := by
  rcases p.box_perform side call s with h | h | ⟨_, _, h⟩ | ⟨_, _, _, h⟩
  · rwa [h]
  · rw [h]
  · rwa [h]
  · rwa [h]

/-- Only closing an end changes whether an end is open. -/
theorem isOpen_perform {p : MailboxPair} {side : Side} {call : ChannelCall}
    (hclose : call ≠ .close) (s : Side) :
    ((p.perform side call).subject.box s).isOpen = (p.box s).isOpen := by
  have heffect := effect_perform p side call
  generalize p.perform side call = r at heffect ⊢
  cases heffect with
  | closed => contradiction
  | sent _ _ => rcases side.eq_or_eq_other s with rfl | rfl <;> simp
  | received _ _ => rcases side.eq_or_eq_other s with rfl | rfl <;> simp
  | _ => rfl

theorem isMessage_perform {p : MailboxPair} {s : Side}
    (hwaiting : ∀ text ∈ (p.box s).waiting, IsMessage p.limit text)
    (side : Side) (call : ChannelCall) :
    ∀ text ∈ ((p.perform side call).subject.box s).waiting,
      IsMessage p.limit text := by
  intro text hmem
  rcases p.box_perform side call s with
    h | h | ⟨new, hnew, h⟩ | ⟨first, rest, hfirst, h⟩
  · exact hwaiting text (h ▸ hmem)
  · rw [h] at hmem
    exact hwaiting text hmem
  · rw [h] at hmem
    rcases List.mem_append.mp hmem with hold | hlast
    · exact hwaiting text hold
    · rwa [List.mem_singleton.mp hlast]
  · rw [h] at hmem
    exact hwaiting text (hfirst ▸ List.mem_cons_of_mem first hmem)

theorem isOpen_afterCalls_of_closed {p : MailboxPair} {s : Side}
    (hclosed : (p.box s).isOpen = false) (calls : List (Side × ChannelCall)) :
    ((afterCalls perform p calls).box s).isOpen = false :=
  conversation_induction
    (motive := fun _ (q : MailboxPair) => (q.box s).isOpen = false)
    (fun _ _ side call h => isOpen_perform_of_closed h side call) hclosed calls

/-- What has been taken from the mailbox of one end and what waits there is, in
order, what the other end has sent; and what waits are messages. -/
structure Conserves (config : ChannelConfig) (record : List (Exchange MailboxPair))
    (p : MailboxPair) : Prop where
  config_eq : p.config = config
  sent_eq : ∀ s, record.filterMap (Exchange.sent? config.heartbeat s.other) =
    record.filterMap (taken? s) ++ (p.box s).waiting
  isMessage : ∀ s, ∀ text ∈ (p.box s).waiting,
    IsMessage config.maxMessageLength.toNat text

theorem conserves_new (config : ChannelConfig) :
    Conserves config [] { config } := by
  refine ⟨rfl, ?_, ?_⟩
  · intro s
    cases s <;> rfl
  · intro s
    cases s <;> simp [box]

theorem Conserves.perform {config : ChannelConfig}
    {record : List (Exchange MailboxPair)} {p : MailboxPair}
    (h : Conserves config record p) (side : Side) (call : ChannelCall) :
    Conserves config (record ++ [⟨side, call, p, p.perform side call⟩])
      (p.perform side call).subject := by
  obtain ⟨rfl, hsent, hmessages⟩ := h
  refine ⟨config_perform p side call, ?_, ?_⟩
  · intro s
    rw [List.filterMap_append, List.filterMap_append, hsent s, List.append_assoc,
      List.append_assoc, p.perform_conserves side call s]
  · intro s
    exact isMessage_perform (hmessages s) side call

/-- A receive that does not fail hands over the start of the message that it
takes, and nothing if there is none to take. -/
theorem answer_receive {x : Exchange MailboxPair}
    (hx : x.reply = x.before.perform x.side x.call) {size : Nat}
    (hcall : x.call = .receive size) (hdone : x.reply.failed = false) :
    x.reply.answer = .ok (.received (match taken? x.side x with
      | none => []
      | some text => (utf8 text).take size)) := by
  obtain ⟨side, call, p, r⟩ := x
  simp only at hx hcall
  subst hcall
  have heffect := effect_perform p side (.receive size)
  rw [← hx] at heffect
  cases heffect with
  | refused _ e => simp [Reply.failed] at hdone
  | sent hmessage _ => simp [ChannelCall.message?] at hmessage
  | nothing _ hwaiting => simp [taken?, hwaiting]
  | received _ hwaiting => simp [taken?, hwaiting, Reply.failed, ChannelCall.room?]

section Open

variable {p : MailboxPair} {side : Side}

theorem answer_send_of_open (hopen : (p.box side).isOpen = true)
    {call : ChannelCall} {text : String}
    (hcall : call.message? p.config.heartbeat = some text) :
    (p.perform side call).answer = (checkMessage p.limit text).map fun () =>
      .done := by
  have hsend : p.perform side call = p.send side text := by
    cases call <;> simp_all [ChannelCall.message?, perform]
  rw [hsend, send, limit]
  cases checkMessage p.config.maxMessageLength.toNat text <;> rfl

/-- An open end receives the start of the message that waits longest, and nothing if
none waits. -/
theorem answer_receive_of_open (hopen : (p.box side).isOpen = true) (size : Nat) :
    (p.perform side (.receive size)).answer =
      .ok (.received (match (p.box side).waiting with
      | [] => []
      | text :: _ => (utf8 text).take size)) := by
  simp only [perform, hopen, receive]
  split
  · next hbox => rw [hbox]
  · next hbox => rw [hbox]

end Open

/-- Closing an end always succeeds and moves no message. -/
theorem perform_close (p : MailboxPair) (side : Side) :
    let r := p.perform side .close
    r.answer = .ok .done ∧ (r.subject.box side).isOpen = false ∧
      r.subject.box side.other = p.box side.other ∧
      (r.subject.box side).waiting = (p.box side).waiting := by
  cases hopen : (p.box side).isOpen with
  | false => simp [perform_close_of_closed hopen, hopen]
  | true => simp [perform, hopen, close]

/-- In any conversation over a channel in memory, whatever its configuration,
the messages that one end has taken and those that wait for it are those that
the other end has sent. -/
theorem conversation_conserves (config : ChannelConfig)
    (calls : List (Side × ChannelCall)) :
    let record := exchanges perform { config } calls
    let p := afterCalls perform { config } calls
    (∀ side : Side,
      let sent := record.filterMap (Exchange.sent? config.heartbeat side.other)
      let taken := record.filterMap (taken? side)
      sent = taken ++ (p.box side).waiting ∧
      sent.length = taken.length + p.pending side ∧
      (∀ text ∈ (p.box side).waiting,
        IsMessage config.maxMessageLength.toNat text) ∧
      ((p.box side).isOpen = true →
        (∀ call text, call.message? config.heartbeat = some text →
          (p.perform side call).answer =
            (checkMessage config.maxMessageLength.toNat text).map fun () => .done) ∧
        ∀ size, (p.perform side (.receive size)).answer =
          .ok (.received (match (p.box side).waiting with
            | [] => []
            | text :: _ => (utf8 text).take size))) ∧
      ((p.box side).isOpen = false → ∀ later,
        let q := afterCalls perform p later
        (q.box side).isOpen = false ∧ (q.perform side .close).answer = .ok .done ∧
        ∀ call, call ≠ .close → call ≠ .isOpen →
          (q.perform side call).answer = .error .channelClosed)) ∧
    ∀ x ∈ record,
      (∀ size, x.call = .receive size → x.reply.failed = false →
        x.reply.answer = .ok (.received (match taken? x.side x with
          | none => []
          | some text => (utf8 text).take size))) ∧
      (∀ e, x.reply.answer = .error e → x.reply.subject = x.before) ∧
      (x.call = .close → x.reply.answer = .ok .done ∧
        (x.reply.subject.box x.side).isOpen = false ∧
        x.reply.subject.box x.side.other = x.before.box x.side.other ∧
        (x.reply.subject.box x.side).waiting = (x.before.box x.side).waiting) := by
  intro record p
  have hconserves : Conserves config record p :=
    conversation_induction (fun _ _ side call h => h.perform side call)
      (conserves_new config) calls
  refine ⟨?_, ?_⟩
  · intro side sent taken
    have hsent : sent = taken ++ (p.box side).waiting := hconserves.sent_eq side
    refine ⟨hsent, ?_, hconserves.isMessage side, ?_, ?_⟩
    · rw [hsent, List.length_append, pending]
    · intro hopen
      refine ⟨?_, answer_receive_of_open hopen⟩
      rw [← hconserves.config_eq]
      exact fun call text hcall => answer_send_of_open hopen hcall
    · intro hclosed later q
      have hlater : (q.box side).isOpen = false :=
        isOpen_afterCalls_of_closed hclosed later
      refine ⟨hlater, (q.perform_close side).1, ?_⟩
      intro call hclose hask
      rw [perform_of_closed hlater hclose hask]
  · intro x hx
    have hreply := reply_of_mem_exchanges hx
    refine ⟨fun size => answer_receive hreply, ?_, ?_⟩
    · intro e he
      rw [hreply] at he ⊢
      exact subject_perform_of_error he
    · intro hclose
      rw [hreply, hclose]
      exact x.before.perform_close x.side

end MailboxPair

end BoardQuery
