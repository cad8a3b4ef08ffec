/-
Draining.  An end of a channel is told to receive until a receive hands nothing
over.  With room for a byte at least that is when no message is left, since no
message is empty.  With no room every receive hands nothing over, but it takes a
message all the same.
-/
import BoardQuery.Proofs.Conservation
import BoardQuery.Proofs.Correspondence

namespace BoardQuery

/-- A message that is cut does not vanish as long as there is room for a byte. -/
theorem IsMessage.take_utf8_ne_nil {limit size : Nat} {text : String}
    (h : IsMessage limit text) (hsize : 0 < size) : (utf8 text).take size ≠ [] := by
  rw [ne_eq, List.take_eq_nil_iff, not_or]
  exact ⟨Nat.ne_of_gt hsize, h.utf8_ne_nil⟩

/-- One end receives with room for `size` bytes until a receive hands nothing
over: what was handed over up to there, the answer of that receive, and the
channel after it. -/
inductive Drains {σ : Type}
    (perform : σ → Side → ChannelCall → Reply σ ChannelAnswer) (side : Side)
    (size : Nat) : σ → List Bytes → Except Error ChannelAnswer → σ → Prop
  | stop {p : σ}
      (hstop : ∀ bytes, (perform p side (.receive size)).answer =
        .ok (.received bytes) →
        bytes = []) :
      Drains perform side size p [] (perform p side (.receive size)).answer
        (perform p side (.receive size)).subject
  | next {p q : σ} {bytes : Bytes} {received : List Bytes}
      {answer : Except Error ChannelAnswer}
      (hbytes : bytes ≠ [])
      (hnext : (perform p side (.receive size)).answer = .ok (.received bytes))
      (hrest : Drains perform side size (perform p side (.receive size)).subject
        received answer q) :
      Drains perform side size p (bytes :: received) answer q

theorem Drains.stop_of_eq {σ : Type}
    {perform : σ → Side → ChannelCall → Reply σ ChannelAnswer} {side : Side}
    {size : Nat} {p : σ} {r : Reply σ ChannelAnswer}
    (hr : perform p side (.receive size) = r)
    (hstop : ∀ bytes, r.answer = .ok (.received bytes) → bytes = []) :
    Drains perform side size p [] r.answer r.subject := by
  subst hr
  exact .stop hstop

theorem Drains.unique {σ : Type}
    {perform : σ → Side → ChannelCall → Reply σ ChannelAnswer} {side : Side}
    {size : Nat} {p q q' : σ} {received received' : List Bytes}
    {answer answer' : Except Error ChannelAnswer}
    (h : Drains perform side size p received answer q)
    (h' : Drains perform side size p received' answer' q') :
    received = received' ∧ answer = answer' ∧ q = q' := by
  induction h generalizing received' with
  | stop hstop =>
      cases h' with
      | stop _ => exact ⟨rfl, rfl, rfl⟩
      | next hbytes hnext _ => exact absurd (hstop _ hnext) hbytes
  | next hbytes hnext _ ih =>
      cases h' with
      | stop hstop => exact absurd (hstop _ hnext) hbytes
      | next _ hnext' hrest' =>
          rw [hnext, Except.ok.injEq, ChannelAnswer.received.injEq] at hnext'
          obtain ⟨rfl, rfl, rfl⟩ := ih hrest'
          exact ⟨by rw [hnext'], rfl, rfl⟩

namespace MailboxPair

variable {p : MailboxPair} {side : Side} {size : Nat}

theorem withBox_box (p : MailboxPair) (side : Side) :
    p.withBox side (p.box side) = p := by
  cases side <;> rfl

@[simp] theorem withBox_withBox (p : MailboxPair) (side : Side)
    (before after : Mailbox) :
    (p.withBox side before).withBox side after = p.withBox side after := by
  cases side <;> rfl

/-- Every receive of an open end takes the message that waits longest, if one
waits. -/
theorem subject_receive_of_open (hopen : (p.box side).isOpen = true) (size : Nat) :
    (p.perform side (.receive size)).subject =
      p.withBox side { p.box side with waiting := (p.box side).waiting.tail } := by
  have hperform : p.perform side (.receive size) = p.receive side size := by
    simp [perform, hopen]
  rw [hperform, receive]
  split
  · next hbox => rw [hbox, List.tail_nil, ← hbox, withBox_box]
  · next hbox => rw [hbox, List.tail_cons]

/-- A receive for which no message waits changes nothing. -/
theorem subject_receive_of_nothing (hopen : (p.box side).isOpen = true)
    (hnone : (p.box side).waiting = []) (size : Nat) :
    (p.perform side (.receive size)).subject = p := by
  have hbox : { p.box side with waiting := [] } = p.box side := by rw [← hnone]
  rw [subject_receive_of_open hopen, hnone, List.tail_nil, hbox, withBox_box]

/-- A receive hands nothing over when no message waits or there is no room for
any. -/
theorem answer_receive_eq_nil_iff (hopen : (p.box side).isOpen = true) {limit : Nat}
    (hmessages : ∀ text ∈ (p.box side).waiting, IsMessage limit text) (size : Nat) :
    (p.perform side (.receive size)).answer = .ok (.received []) ↔
      (p.box side).waiting = [] ∨ size = 0 := by
  rw [answer_receive_of_open hopen]
  cases hwaiting : (p.box side).waiting with
  | nil => simp
  | cons text rest =>
      have htext := (hmessages text (hwaiting ▸ List.mem_cons_self)).utf8_ne_nil
      simp [htext]

/-- With room for a byte an end is drained of all messages that wait for it. -/
theorem drains (hopen : (p.box side).isOpen = true) {limit : Nat}
    (hmessages : ∀ text ∈ (p.box side).waiting, IsMessage limit text)
    (hsize : 0 < size) :
    Drains perform side size p
      ((p.box side).waiting.map fun text => (utf8 text).take size)
      (.ok (.received [])) (p.withBox side { p.box side with waiting := [] }) := by
  induction hwaiting : (p.box side).waiting generalizing p with
  | nil =>
      have hanswer := answer_receive_of_open hopen size
      have hsubject := subject_receive_of_open hopen size
      simp only [hwaiting, List.tail_nil] at hanswer hsubject
      rw [List.map_nil, ← hanswer, ← hsubject]
      apply Drains.stop
      intro bytes hbytes
      simpa [hanswer] using hbytes.symm
  | cons text rest ih =>
      have hanswer := answer_receive_of_open hopen size
      have hsubject := subject_receive_of_open hopen size
      simp only [hwaiting, List.tail_cons] at hanswer hsubject
      rw [hwaiting, List.forall_mem_cons] at hmessages
      have hrest := ih (p := (p.perform side (.receive size)).subject)
        (by simpa [hsubject] using hopen) (by simpa [hsubject] using hmessages.2)
        (by simp [hsubject])
      rw [List.map_cons]
      refine .next (hmessages.1.take_utf8_ne_nil hsize) hanswer ?_
      simpa [hsubject] using hrest

end MailboxPair

theorem ne_nil_of_findLine {limit : UInt64} {ended : Bool} {bytes line rest : Bytes}
    (h : findLine limit ended bytes = (.line line, rest)) : line ≠ [] := by
  rw [findLine] at h
  split_ifs at h
  · simp at h
  · exact ne_nil_of_nextLine h

/-- With room for a byte a channel over a stream never hands over nothing,
whatever its peer has written. -/
theorem SocketChannel.answer_receive_ne_nil (c : SocketChannel) {size : Nat}
    (hsize : 0 < size) :
    (c.perform (.receive size)).answer ≠ .ok (.received []) := by
  cases hopen : c.isOpen with
  | false => simp [perform, hopen]
  | true =>
      simp only [perform, hopen, receive]
      cases hfound : findLine c.config.maxMessageLength c.stream.incoming.ended
          c.stream.incoming.bytes with
      | mk finding rest =>
          cases finding with
          | line line => simp [ne_nil_of_findLine hfound, Nat.ne_of_gt hsize]
          | _ => simp

namespace SocketPair

variable {p : SocketPair} {side : Side} {waiting : List String} {size : Nat}

theorem delivery_eq_nil_iff {sent limit : Nat} {text : String}
    (h : IsMessage sent text) :
    delivery limit size text = .ok (.received []) ↔
      text.utf8ByteSize ≤ limit ∧ size = 0 := by
  unfold delivery
  split_ifs with hfits
  · simp [hfits, h.utf8_ne_nil]
  · simp [hfits]

/-- Under the largest limit that there is a receive changes nothing. -/
theorem perform_receive_of_overflow (hopen : (p.terminal side).isOpen = true)
    (hlimit : ¬p.limit side < 2 ^ 64 - 1) (size : Nat) :
    p.perform side (.receive size) =
      { answer := .error .channelClosed, subject := p } := by
  rw [perform_receive hopen,
    (p.channel side).receive_of_overflow (by simpa using hlimit)]
  simp [Reply.on]

/-- A receive hands nothing over only when there is no room, and then it takes a
message. -/
theorem Carries.answer_receive_eq_nil_iff (h : p.Carries side waiting)
    (hopen : (p.terminal side).isOpen = true) (size : Nat) :
    (p.perform side (.receive size)).answer = .ok (.received []) ↔
      p.limit side < 2 ^ 64 - 1 ∧ size = 0 ∧
        ∃ text, waiting.head? = some text ∧ text.utf8ByteSize ≤ p.limit side := by
  by_cases hlimit : p.limit side < 2 ^ 64 - 1
  · rw [perform_receive hopen, and_iff_right hlimit]
    cases waiting with
    | nil => simp [h.receive_nil hlimit hopen, idleAnswer]
    | cons text rest =>
        have htext := h.isMessage text List.mem_cons_self
        rw [(h.receive_cons hlimit size).1, delivery_eq_nil_iff htext]
        simp [and_comm]
  · rw [perform_receive_of_overflow hopen hlimit]
    exact ⟨by simp, fun hthis => absurd hthis.1 hlimit⟩

/-- With room for a byte an end is drained of all messages that are under way to
it, if it takes messages of their length. -/
theorem Carries.drains (h : p.Carries side waiting)
    (hlimit : p.limit side < 2 ^ 64 - 1) (hopen : (p.terminal side).isOpen = true)
    (hfits : ∀ text ∈ waiting, text.utf8ByteSize ≤ p.limit side)
    (hsize : 0 < size) :
    ∃ q, Drains SocketPair.perform side size p
      (waiting.map fun text => (utf8 text).take size)
      (p.idleAnswer side) q ∧ q.Carries side [] := by
  induction waiting generalizing p with
  | nil =>
      have hreceive := h.receive_nil hlimit hopen size
      rw [← perform_receive hopen] at hreceive
      exact ⟨p, .stop_of_eq hreceive (by simp [idleAnswer]), h⟩
  | cons text rest ih =>
      have hreceive := h.receive_cons hlimit size
      rw [← perform_receive hopen] at hreceive
      obtain ⟨hanswer, hcarries, hterminal⟩ := hreceive
      have htext := h.isMessage text List.mem_cons_self
      rw [List.forall_mem_cons] at hfits
      rw [delivery, if_pos hfits.1] at hanswer
      obtain ⟨q, hdrains, hq⟩ :=
        ih hcarries (by rwa [limit, hterminal]) (by rwa [hterminal])
        (by simpa [limit, hterminal] using hfits.2)
      have hidle : (p.perform side (.receive size)).subject.idleAnswer side =
          p.idleAnswer side := by
        rw [idleAnswer, idleAnswer, hterminal]
      rw [hidle] at hdrains
      exact ⟨q, .next (htext.take_utf8_ne_nil hsize) hanswer hdrains, hq⟩

/-- With room for a byte no receive on either end hands over nothing. -/
theorem answer_receive_ne_nil (p : SocketPair) (side : Side) {size : Nat}
    (hsize : 0 < size) :
    (p.perform side (.receive size)).answer ≠ .ok (.received []) :=
  (p.channel side).answer_receive_ne_nil hsize

end SocketPair

/-- When a receive hands nothing over.  The two ends of a channel were called in
any order, and one of them is open.  In memory a receive of that end hands
nothing over if and only if no message waits or there is no room for a byte; it
takes the message that waits longest, if one waits; and with room for a byte the
end is drained of all messages that wait.  Over a stream a receive hands nothing
over only without room, and then it takes a message; under the largest limit
that there is it never does. -/
theorem receives_nothing_iff {config : Side → ChannelConfig}
    (hconfig : ∀ side, (config side).validate = .ok ()) (rooms : Side → List Nat)
    (memory : ChannelConfig) (calls : List (Side × ChannelCall)) (side : Side) :
    (let p := afterCalls MailboxPair.perform { config := memory } calls
      let waiting := (p.box side).waiting
      (p.box side).isOpen = true → ∀ size,
        let r := p.perform side (.receive size)
        (r.answer = .ok (.received []) ↔ waiting = [] ∨ size = 0) ∧
        (waiting = [] → r.subject = p) ∧
        r.subject = p.withBox side { p.box side with waiting := waiting.tail } ∧
        (0 < size → ∀ received answer q,
          Drains MailboxPair.perform side size p received answer q ↔
            received = waiting.map (fun text => (utf8 text).take size) ∧
            answer = .ok (.received []) ∧
            q = p.withBox side { p.box side with waiting := [] })) ∧
    ∃ p, SocketPair.ofConfigs (config .a) (config .b)
      (SocketPair.idleStream rooms) = .ok p ∧
      let limit := (config side).maxMessageLength.toNat
      let record := exchanges SocketPair.perform p calls
      let q := afterCalls SocketPair.perform p calls
      let sent :=
        record.filterMap (Exchange.sent? (config side.other).heartbeat side.other)
      let answered := record.filterMap (SocketPair.answered? side)
      let waiting := sent.drop answered.length
      (∀ (other : SocketPair) size, 0 < size →
        (other.perform side (.receive size)).answer ≠ .ok (.received [])) ∧
      ((q.terminal side).isOpen = true → ∀ size,
        let r := q.perform side (.receive size)
        (¬limit < 2 ^ 64 - 1 → r.answer = .error .channelClosed ∧ r.subject = q) ∧
        (FoundRoom record side.other →
          (r.answer = .ok (.received []) ↔ limit < 2 ^ 64 - 1 ∧ size = 0 ∧
            ∃ text, waiting.head? = some text ∧ text.utf8ByteSize ≤ limit) ∧
          (limit < 2 ^ 64 - 1 →
            (waiting = [] → r.answer = q.idleAnswer side ∧ r.subject = q) ∧
            (0 < size → (∀ text ∈ waiting, text.utf8ByteSize ≤ limit) →
              ∃ q', Drains SocketPair.perform side size q
                  (waiting.map fun text => (utf8 text).take size)
                    (q.idleAnswer side) q' ∧
                q'.Carries side [])))) := by
  refine ⟨?_, _, SocketPair.ofConfigs_eq_ok hconfig rooms, ?_⟩
  · intro p waiting hopen size r
    have hmessages : ∀ text ∈ waiting,
        IsMessage memory.maxMessageLength.toNat text :=
      (MailboxPair.conversation_conserves memory calls).1 side |>.2.2.1
    refine ⟨MailboxPair.answer_receive_eq_nil_iff hopen hmessages size,
      fun hnone => MailboxPair.subject_receive_of_nothing hopen hnone size,
      MailboxPair.subject_receive_of_open hopen size, ?_⟩
    intro hsize received answer q
    have hdrains := MailboxPair.drains hopen hmessages hsize
    constructor
    · exact fun h => h.unique hdrains
    · rintro ⟨rfl, rfl, rfl⟩
      exact hdrains
  · intro limit record q sent answered waiting
    have hkept := SocketPair.kept_afterCalls config rooms calls side
    have hsame : q.limit side = limit := by rw [SocketPair.limit, hkept.1]
    refine ⟨fun other size hsize => other.answer_receive_ne_nil side hsize, ?_⟩
    intro hopen size r
    rw [← hsame]
    refine ⟨?_, ?_⟩
    · intro hlimit
      have hr : r = { answer := .error .channelClosed, subject := q } :=
        SocketPair.perform_receive_of_overflow hopen hlimit size
      exact ⟨by rw [hr], by rw [hr]⟩
    · intro hroom
      obtain ⟨done, left, h⟩ :=
        SocketPair.corresponds_afterCalls config rooms calls side hroom
      have hleft : waiting = left := h.drop_sent
      rw [hleft]
      refine ⟨h.carries.answer_receive_eq_nil_iff hopen size, ?_⟩
      intro hlimit
      refine ⟨?_, fun hsize hfits => h.carries.drains hlimit hopen hfits hsize⟩
      rintro rfl
      have hr : r = { answer := q.idleAnswer side, subject := q } :=
        (SocketPair.perform_receive hopen size).trans
          (h.carries.receive_nil hlimit hopen size)
      exact ⟨by rw [hr], by rw [hr]⟩

/-- A receive without room takes the first of three messages, and draining an
end with room for three bytes gives the starts of the others, also after the
other end was closed. -/
theorem receives_nothing_iff_without_room :
    let config : Side → ChannelConfig := fun _ => {}
    let rooms : Side → List Nat := fun _ => [5, 1, 4, 1, 5, 1]
    let calls : List (Side × ChannelCall) := [(.a, .send "alpha"), (.b, .receive 0),
      (.a, .send "beta"), (.a, .reportAlive), (.a, .close)]
    (∀ side, (config side).validate = .ok ()) ∧
    (∃ q, Drains MailboxPair.perform .b 3 (afterCalls MailboxPair.perform {} calls)
      [utf8 "bet", utf8 "ali"] (.ok (.received [])) q) ∧
    ∃ p q, SocketPair.ofConfigs (config .a) (config .b)
      (SocketPair.idleStream rooms) = .ok p ∧
      FoundRoom (exchanges SocketPair.perform p calls) .a ∧
      Drains SocketPair.perform .b 3 (afterCalls SocketPair.perform p calls)
        [utf8 "bet", utf8 "ali"] (.error .channelClosed) q := by
  intro config rooms calls
  have hconfig : ∀ side, (config side).validate = .ok () := by
    intro side
    decide
  obtain ⟨hmemory, p, hp, hstream⟩ := receives_nothing_iff hconfig rooms {} calls .b
  obtain rfl :=
    Except.ok.inj ((SocketPair.ofConfigs_eq_ok hconfig rooms).symm.trans hp)
  have hstarts : ["beta", "alive"].map (fun text => (utf8 text).take 3) =
      [utf8 "bet", utf8 "ali"] := by
    decide
  have hwaiting : ((afterCalls MailboxPair.perform {} calls).box .b).waiting =
      ["beta", "alive"] := by
    decide
  obtain ⟨_, _, _, hdrains⟩ := hmemory (by decide) 3
  rw [hwaiting, hstarts] at hdrains
  let record := exchanges SocketPair.perform (SocketPair.fresh config rooms) calls
  let q := afterCalls SocketPair.perform (SocketPair.fresh config rooms) calls
  have hunder_way :
    (record.filterMap (Exchange.sent? (config .a).heartbeat .a)).drop
      (record.filterMap (SocketPair.answered? .b)).length = ["beta", "alive"] := by
    decide
  have hanswers : record.map (fun x => x.reply.answer) =
      [.ok .done, .ok (.received []), .ok .done, .ok .done, .ok .done] := by
    decide
  have hroom := foundRoom_of_answers hanswers (by simp) .a
  have hidle : q.idleAnswer .b = .error .channelClosed := by decide
  have hfits : ∀ text ∈ ["beta", "alive"],
      text.utf8ByteSize ≤ (config .b).maxMessageLength.toNat := by
    decide
  obtain ⟨_, hdrains'⟩ := (hstream.2 (by decide) 3).2 hroom
  obtain ⟨q', hq', _⟩ := (hdrains' (by decide)).2 (by decide) (hunder_way ▸ hfits)
  refine ⟨hconfig, ⟨_, (hdrains (by decide) _ _ _).mpr ⟨rfl, rfl, rfl⟩⟩, _, q', hp,
    hroom, ?_⟩
  rw [← hstarts, ← hunder_way, ← hidle]
  exact hq'

/-- A receive without room hands nothing over though a message waits, and the
message is gone, in memory as well as over a stream. -/
theorem receive_without_room_loses_message :
    let calls : List (Side × ChannelCall) := [(.a, .send "hello")]
    let p := afterCalls MailboxPair.perform {} calls
    let r := p.perform .b (.receive 0)
    let q := afterCalls SocketPair.perform {} calls
    let s := q.perform .b (.receive 0)
    (p.box .b = { waiting := ["hello"] } ∧ r.answer = .ok (.received []) ∧
      r.subject.box .b = { waiting := [] }) ∧
    SocketPair.ofConfigs {} {} = .ok {} ∧ (q.terminal .b).isOpen = true ∧
      (q.incoming .b).bytes = frame "hello" ∧ s.answer = .ok (.received []) ∧
      (s.subject.incoming .b).bytes = [] := by
  decide

end BoardQuery
