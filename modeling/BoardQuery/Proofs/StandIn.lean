/-
Channels in memory as stand-ins.  A channel in memory and one over a stream,
both open and with one configuration, answer the same calls in the same way, as
long as there is room in the stream for what is sent.  The mailboxes hold,
message by message, what is under way in the pipes; only a receive with nothing
there tells the two kinds of channel apart.
-/
import BoardQuery.Proofs.Conservation
import BoardQuery.Proofs.Correspondence

namespace BoardQuery

/-- A receive in memory for which no message waits. -/
def Exchange.IsIdle (x : Exchange MailboxPair) : Prop :=
  x.call.room?.isSome = true ∧ (x.before.box x.side).waiting = []

/-- One call was made on both kinds of channel, with one answer.  When there is
nothing to receive, the channel in memory hands over no bytes and the other one
would block. -/
structure Exchange.Agrees (x : Exchange MailboxPair) (y : Exchange SocketPair) :
    Prop where
  side_eq : y.side = x.side
  call_eq : y.call = x.call
  idle : x.IsIdle → x.reply.answer = .ok (.received []) ∧
    y.reply.answer = .error (.system "receive message" .wouldBlock)
  busy : ¬ x.IsIdle → y.reply.answer = x.reply.answer

/-- Exchanges that agree send the same message, if they send one. -/
theorem Exchange.Agrees.sent?_eq {x : Exchange MailboxPair}
    {y : Exchange SocketPair} (h : x.Agrees y) (heartbeat : String) (s : Side) :
    y.sent? heartbeat s = x.sent? heartbeat s := by
  by_cases hidle : x.IsIdle
  · have hmessage : x.call.message? heartbeat = none := by
      cases hcall : x.call.message? heartbeat with
      | none => rfl
      | some text => simpa [ChannelCall.room?_of_message? hcall] using hidle.1
    simp [sent?, h.call_eq, hmessage]
  · simp only [sent?, h.side_eq, h.call_eq, h.busy hidle]

/-- Records that agree have the same messages sent in them. -/
theorem Exchange.filterMap_sent?_eq {record : List (Exchange MailboxPair)}
    {record' : List (Exchange SocketPair)} (h : List.Forall₂ Agrees record record')
    (heartbeat : String) (s : Side) :
    record'.filterMap (sent? heartbeat s) =
      record.filterMap (sent? heartbeat s) := by
  induction h with
  | nil => rfl
  | cons hagree _ ih =>
      rw [List.filterMap_cons, List.filterMap_cons, hagree.sent?_eq, ih]

/-- Whatever a call does to the messages under way to one end, those that were
under way and the one that came are the one that was answered and those that are
under way. -/
theorem SocketPair.Flow.conserves {p : SocketPair} {s : Side}
    {x : Exchange SocketPair} {waiting waiting' : List String}
    (h : Flow p s x waiting waiting') :
    ∃ taken : List String, taken.length = ([x].filterMap (answered? s)).length ∧
      waiting ++
        [x].filterMap (Exchange.sent? (p.terminal s.other).config.heartbeat
        s.other) =
        taken ++ waiting' := by
  cases h with
  | same hsent hanswered => exact ⟨[], by simp [hanswered], by simp [hsent]⟩
  | added hsent hanswered => exact ⟨[], by simp [hanswered], by simp [hsent]⟩
  | @taken waiting text size hsent hanswered =>
      exact ⟨[text], by simp [hanswered], by simp [hsent]⟩

/-- The two kinds of channel in corresponding states: all ends are open, with one
configuration, and what waits in a mailbox is under way in the pipe. -/
structure Mirrors (m : MailboxPair) (p : SocketPair) : Prop where
  config_eq : ∀ s, (p.terminal s).config = m.config
  isOpen_box : ∀ s, (m.box s).isOpen = true
  isOpen_terminal : ∀ s, (p.terminal s).isOpen = true
  limit_lt : ∀ s, p.limit s < 2 ^ 64 - 1
  carries : ∀ s, p.Carries s (m.box s).waiting

theorem SocketPair.ofConfigs_self {config : ChannelConfig}
    (h : config.validate = .ok ()) (rooms : Side → List Nat) :
    ofConfigs config config (idleStream rooms) =
      .ok (fresh (fun _ => config) rooms) :=
  @ofConfigs_eq_ok (fun _ => config) (fun _ => h) rooms

theorem mirrors_fresh {config : ChannelConfig}
    (hlimit : config.maxMessageLength.toNat < 2 ^ 64 - 1)
    (rooms : Side → List Nat) :
    Mirrors { config } (SocketPair.fresh (fun _ => config) rooms) where
  config_eq := by
    intro s
    cases s <;> rfl
  isOpen_box := by
    intro s
    cases s <;> rfl
  isOpen_terminal := by
    intro s
    cases s <;> rfl
  limit_lt := by
    intro s
    cases s <;> exact hlimit
  carries := by
    intro s
    cases s <;> exact ⟨by simp [MailboxPair.box], rfl, rfl⟩

namespace Mirrors

variable {m : MailboxPair} {p : SocketPair}

theorem limit_eq (h : Mirrors m p) (s : Side) : p.limit s = m.limit := by
  rw [SocketPair.limit, h.config_eq, MailboxPair.limit]

/-- A message is sent by both or refused by both, if there is room for it. -/
theorem answer_send (h : Mirrors m p) (side : Side) {call : ChannelCall}
    {text : String} (hcall : call.message? m.config.heartbeat = some text)
    (hroom : (p.perform side call).answer ≠ .error noRoom) :
    (p.perform side call).answer = (m.perform side call).answer := by
  have hsend : call.message? (p.terminal side).config.heartbeat = some text := by
    rwa [h.config_eq]
  have hanswer :=
    (h.carries side.other).endsWell.answer_send (h.isOpen_terminal side)
    (h.isOpen_terminal side.other) hsend
  rw [hanswer] at hroom ⊢
  rw [MailboxPair.answer_send_of_open (h.isOpen_box side) hcall, ← h.limit_eq side]
  exact SocketPair.sendAnswer_of_ne_noRoom hroom

/-- A receive gets the start of the same message from both, and nothing from
both. -/
theorem answer_receive (h : Mirrors m p) (side : Side) (size : Nat) :
    match (m.box side).waiting with
    | [] => (m.perform side (.receive size)).answer = .ok (.received []) ∧
        (p.perform side (.receive size)).answer =
          .error (.system "receive message" .wouldBlock)
    | text :: _ =>
        (m.perform side (.receive size)).answer =
          .ok (.received ((utf8 text).take size)) ∧
        (p.perform side (.receive size)).answer =
          .ok (.received ((utf8 text).take size)) := by
  have hbox := MailboxPair.answer_receive_of_open (h.isOpen_box side) size
  have hcarries := h.carries side
  rw [SocketPair.perform_receive (h.isOpen_terminal side)]
  cases hwaiting : (m.box side).waiting with
  | nil =>
      rw [hwaiting] at hbox hcarries
      refine ⟨hbox, ?_⟩
      simp [hcarries.receive_nil (h.limit_lt side) (h.isOpen_terminal side),
        SocketPair.idleAnswer, h.isOpen_terminal]
  | cons text rest =>
      rw [hwaiting] at hbox hcarries
      have htext := (hcarries.isMessage text List.mem_cons_self).length_le
      rw [h.limit_eq, ← h.limit_eq side] at htext
      refine ⟨hbox, ?_⟩
      rw [(hcarries.receive_cons (h.limit_lt side) size).1, delivery, if_pos htext]

theorem agrees (h : Mirrors m p) (side : Side) {call : ChannelCall}
    (hclose : call ≠ .close)
    (hroom : (p.perform side call).answer ≠ .error noRoom) :
    Exchange.Agrees ⟨side, call, m, m.perform side call⟩
      ⟨side, call, p, p.perform side call⟩ := by
  have hsend : ∀ text, call.message? m.config.heartbeat = some text →
      Exchange.Agrees ⟨side, call, m, m.perform side call⟩
        ⟨side, call, p, p.perform side call⟩ := by
    intro text hcall
    refine ⟨rfl, rfl, ?_, fun _ => h.answer_send side hcall hroom⟩
    rintro ⟨hroom, _⟩
    simp [ChannelCall.room?_of_message? hcall] at hroom
  cases call with
  | send text => exact hsend text rfl
  | reportAlive => exact hsend m.config.heartbeat rfl
  | close => contradiction
  | isOpen =>
      refine ⟨rfl, rfl, ?_, ?_⟩
      · rintro ⟨hroom, _⟩
        simp [ChannelCall.room?] at hroom
      · intro _
        simp [MailboxPair.perform, SocketPair.perform, SocketChannel.perform,
          Reply.on, h.isOpen_box, h.isOpen_terminal]
  | receive size =>
      have hanswer := h.answer_receive side size
      cases hwaiting : (m.box side).waiting with
      | nil =>
          rw [hwaiting] at hanswer
          exact ⟨rfl, rfl, fun _ => hanswer,
            fun hbusy => absurd ⟨rfl, hwaiting⟩ hbusy⟩
      | cons text rest =>
          rw [hwaiting] at hanswer
          refine ⟨rfl, rfl, ?_, fun _ => hanswer.2.trans hanswer.1.symm⟩
          rintro ⟨_, hempty⟩
          simp [hwaiting] at hempty

/-- A message is taken from a mailbox exactly when a receive is answered over
the stream. -/
theorem length_taken (h : Mirrors m p) (side : Side) (call : ChannelCall)
    (s : Side) :
    ([⟨side, call, m, m.perform side call⟩].filterMap
      (MailboxPair.taken? s)).length =
      ([⟨side, call, p, p.perform side call⟩].filterMap
        (SocketPair.answered? s)).length := by
  by_cases hside : side = s
  · subst hside
    cases call with
    | receive size =>
        have hanswer := h.answer_receive side size
        cases hwaiting : (m.box side).waiting with
        | nil =>
            rw [hwaiting] at hanswer
            simp [MailboxPair.taken?, SocketPair.answered?, hwaiting, hanswer,
              isAnswer]
        | cons text rest =>
            rw [hwaiting] at hanswer
            simp [MailboxPair.taken?, SocketPair.answered?, hwaiting, hanswer,
              isAnswer, Reply.failed, ChannelCall.room?]
    | _ => simp [MailboxPair.taken?, SocketPair.answered?, ChannelCall.room?]
  · simp [MailboxPair.taken?, SocketPair.answered?, hside]

/-- A call that closes nothing leads to corresponding states again. -/
theorem perform (h : Mirrors m p) (side : Side) {call : ChannelCall}
    (hclose : call ≠ .close)
    (hroom : (p.perform side call).answer ≠ .error noRoom) :
    Mirrors (m.perform side call).subject (p.perform side call).subject where
  config_eq := by
    intro s
    rw [p.config_perform, m.config_perform, h.config_eq]
  isOpen_box := by
    intro s
    rw [MailboxPair.isOpen_perform hclose, h.isOpen_box]
  isOpen_terminal := by
    intro s
    rw [SocketPair.isOpen_perform hclose, h.isOpen_terminal]
  limit_lt := by
    intro s
    rw [SocketPair.limit, p.config_perform]
    exact h.limit_lt s
  carries := by
    intro s
    obtain ⟨waiting', hcarries, hflow⟩ :=
      (h.carries s).perform side call fun _ => hroom
    obtain ⟨answered, hlength, hstream⟩ := hflow.conserves
    have hmemory := m.perform_conserves side call s
    have hsent :=
      Exchange.filterMap_sent?_eq (.cons (h.agrees side hclose hroom) .nil)
      m.config.heartbeat s.other
    rw [h.config_eq, hsent, hmemory] at hstream
    obtain ⟨_, hwaiting⟩ :=
      List.append_inj hstream ((h.length_taken side call s).trans hlength.symm)
    rwa [hwaiting]

/-- Any number of calls that close nothing are answered in the same way, if
there is room for what they send. -/
theorem agrees_exchanges (h : Mirrors m p) {calls : List (Side × ChannelCall)}
    (hclose : ∀ call ∈ calls, call.2 ≠ .close)
    (hroom : ∀ s, FoundRoom (exchanges SocketPair.perform p calls) s) :
    List.Forall₂ Exchange.Agrees (exchanges MailboxPair.perform m calls)
        (exchanges SocketPair.perform p calls) ∧
      Mirrors (afterCalls MailboxPair.perform m calls)
        (afterCalls SocketPair.perform p calls) := by
  induction calls generalizing m p with
  | nil => exact ⟨.nil, h⟩
  | cons first rest ih =>
      obtain ⟨hfirst, hrest⟩ := List.forall_mem_cons.mp hclose
      have hthis := hroom first.1 _ List.mem_cons_self rfl
      obtain ⟨hagree, hmirrors⟩ := ih (h.perform first.1 hfirst hthis) hrest
        fun s x hx => hroom s x (List.mem_cons_of_mem _ hx)
      exact ⟨.cons (h.agrees first.1 hfirst hthis) hagree, hmirrors⟩

end Mirrors

end BoardQuery
