/-
Signs of life.  A configuration is sound exactly when its heartbeat can be sent
under its own limit.  So an end of an open channel can always send one, over a
stream whenever there is room for it, and the other end gets it in its turn: the
messages that wait for an end are a queue, in memory as well as over a stream.
-/
import BoardQuery.Proofs.Draining
import BoardQuery.Proofs.StandIn
import Mathlib.Data.List.ReduceOption

namespace BoardQuery

/-- A configuration is sound when its heartbeat is a message under its limit. -/
theorem ChannelConfig.validate_eq_ok_iff {c : ChannelConfig} :
    c.validate = .ok () ↔ IsMessage c.maxMessageLength.toNat c.heartbeat := by
  have hflaw : c.validate = .ok () ↔ c.flaw? = none := by
    unfold validate
    cases c.flaw? <;> simp
  rw [hflaw, flaw?]
  constructor
  · intro h
    split_ifs at h with hzero hline hlong
    rw [not_or, String.isEmpty_iff] at hline
    exact ⟨hline.1, hline.2, Nat.not_lt.mp hlong⟩
  · rintro ⟨hempty, hline, hfits⟩
    have hzero : c.maxMessageLength ≠ 0 := by
      intro hzero
      rw [hzero, UInt64.toNat_zero, Nat.le_zero,
        String.utf8ByteSize_eq_zero_iff] at hfits
      exact hempty hfits
    simp [hzero, String.isEmpty_iff, hempty, hline, Nat.not_lt.mpr hfits]

/-- The receive of one end that an exchange was, with its room and its answer. -/
def Exchange.receipt? {σ : Type} (side : Side) (x : Exchange σ) :
    Option (Nat × Except Error ChannelAnswer) :=
  if x.side = side then x.call.room?.map fun size =>
    (size, x.reply.answer) else none

/-- What a receive got: the start of a message, or nothing, which it says in its
own way. -/
def Gets (idle : Except Error ChannelAnswer → Prop)
    (receipt : Nat × Except Error ChannelAnswer) :
    Option String → Prop
  | some text => receipt.2 = .ok (.received ((utf8 text).take receipt.1))
  | none => idle receipt.2

/-- Receives get the messages of a first list one by one.  Those behind them get
messages of a second list, in its order, or nothing. -/
def HandsOver (idle : Except Error ChannelAnswer → Prop)
    (receipts : List (Nat × Except Error ChannelAnswer))
    (first second : List String) : Prop :=
  ∃ later : List (Option String), later.reduceOption <+: second ∧
    ∀ (i : Nat) receipt, receipts[i]? = some receipt →
      ∃ text?, (first.map some ++ later)[i]? = some text? ∧ Gets idle receipt text?

section HandsOver

variable {idle : Except Error ChannelAnswer → Prop}
  {receipts : List (Nat × Except Error ChannelAnswer)} {first second : List String}
  {receipt : Nat × Except Error ChannelAnswer} {text : String}

theorem handsOver_nil (first : List String) : HandsOver idle [] first [] :=
  ⟨[], List.nil_prefix, by simp⟩

/-- A message that is sent stands behind those that wait. -/
theorem HandsOver.send (h : HandsOver idle receipts (first ++ [text]) second) :
    HandsOver idle receipts first (text :: second) := by
  obtain ⟨later, hlater, hall⟩ := h
  refine ⟨some text :: later, ?_, fun i receipt hi => ?_⟩
  · simpa using hlater
  · simpa using hall i receipt hi

theorem HandsOver.take (h : HandsOver idle receipts first second)
    (hreceipt : Gets idle receipt (some text)) :
    HandsOver idle (receipt :: receipts) (text :: first) second := by
  obtain ⟨later, hlater, hall⟩ := h
  refine ⟨later, hlater, fun i other hi => ?_⟩
  cases i with
  | zero =>
      obtain rfl : receipt = other := by simpa using hi
      exact ⟨some text, by simp, hreceipt⟩
  | succ i => simpa using hall i other (by simpa using hi)

theorem HandsOver.wait (h : HandsOver idle receipts [] second)
    (hreceipt : Gets idle receipt none) :
    HandsOver idle (receipt :: receipts) [] second := by
  obtain ⟨later, hlater, hall⟩ := h
  refine ⟨none :: later, by simpa using hlater, fun i other hi => ?_⟩
  cases i with
  | zero =>
      obtain rfl : receipt = other := by simpa using hi
      exact ⟨none, by simp, hreceipt⟩
  | succ i => simpa using hall i other (by simpa using hi)

/-- Each message of the first list goes to the receive of its number. -/
theorem HandsOver.gets_first (h : HandsOver idle receipts first second) {i : Nat}
    (hi : receipts[i]? = some receipt) (htext : first[i]? = some text) :
    Gets idle receipt (some text) := by
  obtain ⟨later, _, hall⟩ := h
  obtain ⟨text?, hget, hgets⟩ := hall i receipt hi
  have hlt : i < first.length := (List.getElem?_eq_some_iff.mp htext).1
  rw [List.getElem?_append_left (by simpa using hlt), List.getElem?_map, htext,
    Option.map_some, Option.some.injEq] at hget
  rwa [hget]

end HandsOver

/-- What an exchange does to the messages that wait for one end.  A message that
is sent goes to the back, and a receive gets the one in front, or nothing if
none waits. -/
inductive Queues {σ : Type} (idle : Except Error ChannelAnswer → Prop)
    (heartbeat : String) (s : Side) (x : Exchange σ) :
    List String → List String → Prop
  | same {waiting : List String} (hsent : x.sent? heartbeat s.other = none)
      (hreceipt : x.receipt? s = none) : Queues idle heartbeat s x waiting waiting
  | added {waiting : List String} {text : String}
      (hsent : x.sent? heartbeat s.other = some text)
      (hreceipt : x.receipt? s = none) :
      Queues idle heartbeat s x waiting (waiting ++ [text])
  | taken {waiting : List String} {text : String}
      {receipt : Nat × Except Error ChannelAnswer}
      (hsent : x.sent? heartbeat s.other = none)
      (hreceipt : x.receipt? s = some receipt)
      (hgets : Gets idle receipt (some text)) :
      Queues idle heartbeat s x (text :: waiting) waiting
  | waited {receipt : Nat × Except Error ChannelAnswer}
      (hsent : x.sent? heartbeat s.other = none)
      (hreceipt : x.receipt? s = some receipt)
      (hgets : Gets idle receipt none) : Queues idle heartbeat s x [] []

/-- A state in which messages wait for one end, such that every call that does
not close this end treats them as a queue and leads to such a state again, if
its exchange is allowed. -/
def KeepsQueue {σ : Type} (perform : σ → Side → ChannelCall → Reply σ ChannelAnswer)
    (Allowed : Exchange σ → Prop) (idle : Except Error ChannelAnswer → Prop)
    (heartbeat : String) (s : Side) (Holds : σ → List String → Prop) : Prop :=
  ∀ p waiting side call, Holds p waiting → (side, call) ≠ (s, .close) →
    Allowed ⟨side, call, p, perform p side call⟩ →
    ∃ waiting', Holds (perform p side call).subject waiting' ∧
      Queues idle heartbeat s ⟨side, call, p, perform p side call⟩ waiting waiting'

/-- A sign of life of one end gets through.  It is sent, and in whatever the two
ends are told to do then, unless the other end is closed or an exchange is not
allowed, the receives of that end get first the messages that waited, one by
one, then the heartbeat, and only then messages that were sent later. -/
structure GetsThrough {σ : Type}
    (perform : σ → Side → ChannelCall → Reply σ ChannelAnswer)
    (Allowed : Exchange σ → Prop) (idle : Except Error ChannelAnswer → Prop)
    (heartbeat : String) (side : Side) (p : σ) (waiting : List String) : Prop where
  answer : (perform p side .reportAlive).answer = .ok .done
  delivered : ∀ later : List (Side × ChannelCall), (side.other, .close) ∉ later →
    let record := exchanges perform (perform p side .reportAlive).subject later
    let receipts := record.filterMap (Exchange.receipt? side.other)
    (∀ x ∈ record, Allowed x) →
      HandsOver idle receipts (waiting ++ [heartbeat])
        (record.filterMap (Exchange.sent? heartbeat side)) ∧
      ∀ size answer, receipts[waiting.length]? = some (size, answer) →
        answer = .ok (.received ((utf8 heartbeat).take size)) ∧
        (heartbeat.utf8ByteSize ≤ size → answer = .ok (.received (utf8 heartbeat)))

namespace KeepsQueue

variable {σ : Type} {perform : σ → Side → ChannelCall → Reply σ ChannelAnswer}
  {Allowed : Exchange σ → Prop} {idle : Except Error ChannelAnswer → Prop}
  {heartbeat : String}
  {s side : Side} {Holds : σ → List String → Prop} {p : σ} {waiting : List String}

/-- What every single call keeps of the order of messages, any number of calls
keep. -/
theorem handsOver (h : KeepsQueue perform Allowed idle heartbeat s Holds)
    (hp : Holds p waiting) {calls : List (Side × ChannelCall)}
    (hclose : (s, .close) ∉ calls)
    (hallowed : ∀ x ∈ exchanges perform p calls, Allowed x) :
    let record := exchanges perform p calls
    HandsOver idle (record.filterMap (Exchange.receipt? s)) waiting
      (record.filterMap (Exchange.sent? heartbeat s.other)) := by
  intro record
  induction calls generalizing p waiting with
  | nil => exact handsOver_nil waiting
  | cons call rest ih =>
      rw [List.mem_cons, not_or] at hclose
      obtain ⟨hthis, hlater⟩ := List.forall_mem_cons.mp hallowed
      obtain ⟨waiting', hp', hqueues⟩ :=
        h p waiting call.1 call.2 hp (Ne.symm hclose.1) hthis
      have hrest := ih hp' hclose.2 hlater
      simp only [record, exchanges, List.filterMap_cons]
      cases hqueues with
      | same hsent hreceipt =>
          rw [hsent, hreceipt]
          exact hrest
      | added hsent hreceipt =>
          rw [hsent, hreceipt]
          exact hrest.send
      | taken hsent hreceipt hgets =>
          rw [hsent, hreceipt]
          exact hrest.take hgets
      | waited hsent hreceipt hgets =>
          rw [hsent, hreceipt]
          exact hrest.wait hgets

theorem getsThrough (h : KeepsQueue perform Allowed idle heartbeat side.other Holds)
    (hp : Holds p waiting)
    (hdone : (perform p side .reportAlive).answer = .ok .done)
    (hallowed : Allowed ⟨side, .reportAlive, p, perform p side .reportAlive⟩) :
    GetsThrough perform Allowed idle heartbeat side p waiting := by
  obtain ⟨waiting', hp', hqueues⟩ :=
    h p waiting side .reportAlive hp (by simp) hallowed
  have hsent : Exchange.sent? heartbeat side.other.other
      ⟨side, .reportAlive, p, perform p side .reportAlive⟩ = some heartbeat := by
    simp [Exchange.sent?, hdone, ChannelCall.message?]
  obtain rfl : waiting' = waiting ++ [heartbeat] := by
    cases hqueues with
    | added hadded _ => rw [Option.some.inj (hsent.symm.trans hadded)]
    | same hnone _ => exact absurd (hsent.symm.trans hnone) (by simp)
    | taken hnone _ _ => exact absurd (hsent.symm.trans hnone) (by simp)
    | waited hnone _ _ => exact absurd (hsent.symm.trans hnone) (by simp)
  refine ⟨hdone, fun later hclose => ?_⟩
  intro record receipts hlater
  have hover := h.handsOver hp' hclose hlater
  rw [Side.other_other] at hover
  refine ⟨hover, fun size answer hi => ?_⟩
  have hgets : answer = .ok (.received ((utf8 heartbeat).take size)) :=
    hover.gets_first hi (by simp)
  refine ⟨hgets, fun hroom => ?_⟩
  rw [hgets, List.take_of_length_le (by rwa [length_utf8])]

end KeepsQueue

/-- A call is a receive of an end, or it has no room for a message to that end. -/
theorem receive_or_room?_eq_none (s side : Side) (call : ChannelCall) :
    (side = s ∧ ∃ size, call = .receive size) ∨ (side = s → call.room? = none) := by
  by_cases hside : side = s
  · cases call with
    | receive size => exact .inl ⟨hside, size, rfl⟩
    | _ => exact .inr fun _ => rfl
  · exact .inr fun h => absurd h hside

section Receive

variable {σ : Type} (p : σ) (r : Reply σ ChannelAnswer)

theorem receipt?_eq_none {s side : Side} {call : ChannelCall}
    (h : side = s → call.room? = none) :
    Exchange.receipt? s ⟨side, call, p, r⟩ = none := by
  simpa [Exchange.receipt?] using h

theorem receipt?_receive (side : Side) (size : Nat) :
    Exchange.receipt? side ⟨side, .receive size, p, r⟩ = some (size, r.answer) := by
  simp [Exchange.receipt?, ChannelCall.room?]

theorem sent?_receive (heartbeat : String) (side : Side) (size : Nat) :
    Exchange.sent? heartbeat side.other ⟨side, .receive size, p, r⟩ = none := by
  simp [Exchange.sent?, (Side.other_ne side).symm]

end Receive

namespace MailboxPair

theorem isOpen_perform_of_ne {p : MailboxPair} {s side : Side} {call : ChannelCall}
    (hclose : (side, call) ≠ (s, .close)) :
    ((p.perform side call).subject.box s).isOpen = (p.box s).isOpen := by
  by_cases hcall : call = .close
  · subst hcall
    rcases side.eq_or_eq_other s with rfl | rfl
    · exact absurd rfl hclose
    · rw [(p.perform_close side).2.2.1]
  · exact isOpen_perform hcall s

/-- The messages that wait in the mailbox of an open end are a queue. -/
theorem keepsQueue (heartbeat : String) (s : Side) :
    KeepsQueue perform (fun _ => True) (· = .ok (.received [])) heartbeat s
      fun p waiting => p.config.heartbeat = heartbeat ∧ (p.box s).isOpen = true ∧
        (p.box s).waiting = waiting := by
  rintro p _ side call ⟨rfl, hopen, rfl⟩ hclose -
  have hkept : (p.perform side call).subject.config.heartbeat = p.config.heartbeat ∧
      ((p.perform side call).subject.box s).isOpen = true :=
    ⟨by rw [config_perform], (isOpen_perform_of_ne hclose).trans hopen⟩
  refine ⟨_, ⟨hkept.1, hkept.2, rfl⟩, ?_⟩
  rcases receive_or_room?_eq_none s side call with ⟨rfl, size, rfl⟩ | hroom
  · have hanswer := answer_receive_of_open hopen size
    have hsent :=
      sent?_receive p (p.perform side (.receive size)) p.config.heartbeat side size
    have hreceipt := receipt?_receive p (p.perform side (.receive size)) side size
    rw [subject_receive_of_open hopen, box_withBox]
    cases hwaiting : (p.box side).waiting with
    | nil =>
        rw [hwaiting] at hanswer
        exact .waited hsent hreceipt hanswer
    | cons text rest =>
        rw [hwaiting] at hanswer
        exact .taken hsent hreceipt hanswer
  · have hconserves := p.perform_conserves side call s
    have hreceipt := receipt?_eq_none p (p.perform side call) hroom
    have htaken : taken? s ⟨side, call, p, p.perform side call⟩ = none := by
      rw [taken?, if_neg]
      rintro ⟨hside, hsome, _⟩
      simp [hroom hside] at hsome
    simp only [List.filterMap_cons, List.filterMap_nil, htaken,
      List.nil_append] at hconserves
    rw [← hconserves]
    cases hsent : Exchange.sent? p.config.heartbeat s.other
        ⟨side, call, p, p.perform side call⟩ with
    | none =>
        rw [List.append_nil]
        exact .same hsent hreceipt
    | some text => exact .added hsent hreceipt

end MailboxPair

namespace SocketPair

theorem isOpen_perform_of_ne {p : SocketPair} {s side : Side} {call : ChannelCall}
    (hclose : (side, call) ≠ (s, .close)) :
    ((p.perform side call).subject.terminal s).isOpen = (p.terminal s).isOpen := by
  by_cases hcall : call = .close
  · subst hcall
    rcases side.eq_or_eq_other s with rfl | rfl
    · exact absurd rfl hclose
    · simp [perform, Reply.on]
  · exact isOpen_perform hcall s

/-- The messages under way to an open end are a queue, if both ends have one
configuration and there is room for what the other end sends. -/
theorem keepsQueue {c : ChannelConfig}
    (hlimit : c.maxMessageLength.toNat < 2 ^ 64 - 1) (s : Side) :
    KeepsQueue perform (FoundRoom [·] s.other)
      (fun answer => isAnswer answer = false)
      c.heartbeat s
      fun p waiting => (∀ s, (p.terminal s).config = c) ∧
        (p.terminal s).isOpen = true ∧
        p.Carries s waiting := by
  rintro p waiting side call ⟨hconfig, hopen, hcarries⟩ hclose hfound
  have hlimit : p.limit s < 2 ^ 64 - 1 := by rwa [limit, hconfig]
  have hkept : (∀ s, ((p.perform side call).subject.terminal s).config = c) ∧
      ((p.perform side call).subject.terminal s).isOpen = true :=
    ⟨fun s => (p.config_perform side call s).trans (hconfig s),
      (isOpen_perform_of_ne hclose).trans hopen⟩
  rcases receive_or_room?_eq_none s side call with ⟨rfl, size, rfl⟩ | hroom
  · have hsent :=
      sent?_receive p (p.perform side (.receive size)) c.heartbeat side size
    have hreceipt := receipt?_receive p (p.perform side (.receive size)) side size
    cases waiting with
    | nil =>
        have hnothing := hcarries.receive_nil hlimit hopen size
        rw [← perform_receive hopen] at hnothing
        refine ⟨[], ⟨hkept.1, hkept.2, by rwa [hnothing]⟩,
          .waited hsent hreceipt ?_⟩
        simp [Gets, hnothing]
    | cons text rest =>
        obtain ⟨hanswer, hrest, _⟩ := hcarries.receive_cons hlimit size
        rw [← perform_receive hopen] at hanswer hrest
        have hfits : text.utf8ByteSize ≤ p.limit side := by
          rw [limit, hconfig, ← hconfig side.other]
          exact (hcarries.isMessage text List.mem_cons_self).length_le
        refine ⟨rest, ⟨hkept.1, hkept.2, hrest⟩, .taken hsent hreceipt ?_⟩
        rw [Gets, hanswer, delivery, if_pos hfits]
  · obtain ⟨waiting', hcarries', hflow⟩ :=
      hcarries.perform side call (hfound _ List.mem_cons_self)
    refine ⟨waiting', ⟨hkept.1, hkept.2, hcarries'⟩, ?_⟩
    have hreceipt := receipt?_eq_none p (p.perform side call) hroom
    cases hflow with
    | same hsent _ => exact .same (by rwa [hconfig] at hsent) hreceipt
    | added hsent _ => exact .added (by rwa [hconfig] at hsent) hreceipt
    | taken size _ hanswered =>
        simp only [answered?] at hanswered
        split_ifs at hanswered with hanswer
        simp [hroom hanswer.1] at hanswered

end SocketPair

end BoardQuery
