/-
Correspondence over a stream.  Two channels are each other's peers, and their
ends are called in any order.  As long as there is room for what the other end
sends, what is under way to one end are whole messages, so the receives of that
end answer the sends of the other end one by one.
-/
import BoardQuery.Proofs.Delivery
import Mathlib.Data.List.Forall2

namespace BoardQuery

/-- How a send fails for which there is too little room. -/
def noRoom : Error :=
  .system "send message" .wouldBlock

/-- What one end was told to send found room, all of it. -/
def FoundRoom {σ : Type} (record : List (Exchange σ)) (side : Side) : Prop :=
  ∀ x ∈ record, x.side = side → x.reply.answer ≠ .error noRoom

theorem foundRoom_of_answers {σ : Type} {record : List (Exchange σ)}
    {answers : List (Except Error ChannelAnswer)}
    (h : record.map (fun x => x.reply.answer) = answers)
    (hroom : .error noRoom ∉ answers) (side : Side) : FoundRoom record side := by
  intro x hx _ hfail
  rw [← h, ← hfail] at hroom
  exact hroom (List.mem_map_of_mem hx)

namespace SocketPair

/-- A stream with nothing under way.  The room for what is written to each end is
up to the system. -/
def idleStream (rooms : Side → List Nat) : ByteStream where
  incoming := { rooms := rooms .a }
  outgoing := { rooms := rooms .b }

def fresh (config : Side → ChannelConfig) (rooms : Side → List Nat) :
    SocketPair where
  a := { config := config .a }
  b := { config := config .b }
  stream := idleStream rooms

theorem ofConfigs_eq_ok {config : Side → ChannelConfig}
    (hconfig : ∀ side, (config side).validate = .ok ()) (rooms : Side → List Nat) :
    ofConfigs (config .a) (config .b) (idleStream rooms) =
      .ok (fresh config rooms) := by
  simp [ofConfigs, Terminal.ofConfig, fresh, hconfig, Except.map, bind, Except.bind,
    pure, Except.pure]

def terminal (p : SocketPair) : Side → Terminal
  | .a => p.a
  | .b => p.b

def incoming (p : SocketPair) : Side → Pipe
  | .a => p.stream.incoming
  | .b => p.stream.outgoing

/-- The limit on the messages that one end sends and on the lines that it takes. -/
def limit (p : SocketPair) (side : Side) : Nat :=
  (p.terminal side).config.maxMessageLength.toNat

/-- What a receive on one end answers when no message is under way to it. -/
def idleAnswer (p : SocketPair) (side : Side) : Except Error ChannelAnswer :=
  .error
    (if (p.terminal side.other).isOpen then .system "receive message" .wouldBlock
    else .channelClosed)

def HasRoom (p : SocketPair) (side : Side) (text : String) : Prop :=
  (p.incoming side.other).HasRoom (frameParts text)

instance (p : SocketPair) (side : Side) (text : String) :
    Decidable (p.HasRoom side text) :=
  inferInstanceAs (Decidable (Pipe.HasRoom _ _))

/-- What a send of one end answers while both ends are open. -/
def sendAnswer (p : SocketPair) (side : Side) (text : String) :
    Except Error ChannelAnswer := do
  checkMessage (p.limit side) text
  if p.HasRoom side text then return .done else throw noRoom

theorem sendAnswer_of_ne_noRoom {p : SocketPair} {side : Side} {text : String}
    (h : p.sendAnswer side text ≠ .error noRoom) :
    p.sendAnswer side text = (checkMessage (p.limit side) text).map fun () =>
      .done := by
  unfold sendAnswer at h ⊢
  cases hcheck : checkMessage (p.limit side) text with
  | error e => rfl
  | ok =>
      by_cases hroom : p.HasRoom side text
      · simp [hroom, bind, Except.bind, pure, Except.pure, Except.map]
      · simp [hcheck, hroom, bind, Except.bind, throw, throwThe,
          MonadExceptOf.throw] at h

section Channel

variable (p : SocketPair) (side : Side) (c : SocketChannel)

@[simp] theorem toTerminal_channel :
    (p.channel side).toTerminal = p.terminal side := by
  cases side <;> rfl

@[simp] theorem stream_channel :
    (p.channel side).stream = ⟨p.incoming side, p.incoming side.other⟩ := by
  cases side <;> rfl

@[simp] theorem limit_channel : (p.channel side).limit = p.limit side := by
  cases side <;> rfl

@[simp] theorem terminal_withChannel :
    (p.withChannel side c).terminal side = c.toTerminal := by
  cases side <;> rfl

@[simp] theorem terminal_withChannel_other :
    (p.withChannel side c).terminal side.other = p.terminal side.other := by
  cases side <;> rfl

@[simp] theorem incoming_withChannel :
    (p.withChannel side c).incoming side = c.stream.incoming := by
  cases side <;> rfl

@[simp] theorem incoming_withChannel_other :
    (p.withChannel side c).incoming side.other = c.stream.outgoing := by
  cases side <;> rfl

end Channel

/-- The receive of one end that an exchange was, with its room and its answer,
if it got to a message. -/
def answered? (side : Side) (x : Exchange SocketPair) :
    Option (Nat × Except Error ChannelAnswer) :=
  if x.side = side ∧ isAnswer x.reply.answer = true then
    x.call.room?.map fun size => (size, x.reply.answer)
  else none

/-- The pipe to one end is ended if and only if one of the two ends is closed. -/
def EndsWell (p : SocketPair) (s : Side) : Prop :=
  (p.incoming s).ended = !((p.terminal s).isOpen && (p.terminal s.other).isOpen)

/-- What is under way to one end are messages of the other end, each in its
frame, and more can come as long as both ends are open. -/
structure Carries (p : SocketPair) (s : Side) (waiting : List String) : Prop where
  isMessage : ∀ text ∈ waiting, IsMessage (p.limit s.other) text
  bytes_eq : (p.incoming s).bytes = waiting.flatMap frame
  endsWell : p.EndsWell s

@[simp] theorem isAnswer_idleAnswer (p : SocketPair) (side : Side) :
    isAnswer (p.idleAnswer side) = false := by
  unfold idleAnswer
  split_ifs <;> rfl

/-- What an exchange does to the messages that are under way to one end:
nothing, add one that the other end sent, or take the first one as the answer of
a receive. -/
inductive Flow (p : SocketPair) (s : Side) (x : Exchange SocketPair) :
    List String → List String → Prop
  | same {waiting : List String}
      (hsent : x.sent? (p.terminal s.other).config.heartbeat s.other = none)
      (hanswered : answered? s x = none) : Flow p s x waiting waiting
  | added {waiting : List String} {text : String}
      (hsent : x.sent? (p.terminal s.other).config.heartbeat s.other = some text)
      (hanswered : answered? s x = none) : Flow p s x waiting (waiting ++ [text])
  | taken {waiting : List String} {text : String} (size : Nat)
      (hsent : x.sent? (p.terminal s.other).config.heartbeat s.other = none)
      (hanswered : answered? s x = some (size, delivery (p.limit s) size text)) :
      Flow p s x (text :: waiting) waiting

theorem config_perform (p : SocketPair) (side : Side) (call : ChannelCall)
    (s : Side) :
    ((p.perform side call).subject.terminal s).config = (p.terminal s).config := by
  have heffect := (p.channel side).effect_perform call
  simp only [perform, Reply.on]
  generalize (p.channel side).perform call = r at heffect ⊢
  rcases side.eq_or_eq_other s with rfl | rfl
  · cases heffect <;> simp [SocketChannel.close, SocketChannel.receive]
  · simp

/-- Only closing an end changes whether an end is open. -/
theorem isOpen_perform {p : SocketPair} {side : Side} {call : ChannelCall}
    (hclose : call ≠ .close) (s : Side) :
    ((p.perform side call).subject.terminal s).isOpen = (p.terminal s).isOpen := by
  have heffect := (p.channel side).effect_perform call
  simp only [perform, Reply.on]
  generalize (p.channel side).perform call = r at heffect ⊢
  rcases side.eq_or_eq_other s with rfl | rfl
  · cases heffect with
    | closed => contradiction
    | received _ _ => simp [SocketChannel.receive]
    | _ => simp
  · simp

section Carries

variable {p : SocketPair} {side : Side} {c : SocketChannel} {waiting : List String}

theorem EndsWell.perform {s : Side} (h : p.EndsWell s) (side : Side)
    (call : ChannelCall) :
    (p.perform side call).subject.EndsWell s := by
  have heffect := (p.channel side).effect_perform call
  simp only [EndsWell] at h ⊢
  simp only [SocketPair.perform, Reply.on]
  generalize (p.channel side).perform call = r at heffect ⊢
  rcases side.eq_or_eq_other s with rfl | rfl
  · cases heffect with
    | closed => simp [SocketChannel.close, ByteStream.shutDown, Pipe.finish]
    | received _ _ => simpa [SocketChannel.receive] using h
    | _ => simpa using h
  · cases heffect with
    | closed => simp [SocketChannel.close, ByteStream.shutDown, Pipe.finish]
    | received _ _ => simpa [SocketChannel.receive] using h
    | cut_short _ _ _ _ => simpa [Pipe.ended_writeEach] using h
    | _ => simpa using h

/-- A receive with no message under way changes nothing. -/
theorem Carries.receive_nil (h : p.Carries side [])
    (hlimit : p.limit side < 2 ^ 64 - 1) (hopen : (p.terminal side).isOpen = true)
    (size : Nat) :
    ((p.channel side).receive size).on (p.withChannel side) =
      { answer := p.idleAnswer side, subject := p } := by
  have hnothing :=
    SocketChannel.receive_nothing (c := p.channel side) (by simpa using hlimit)
    (by simpa using h.bytes_eq) size
  have hended := h.endsWell
  rw [EndsWell] at hended
  rw [hnothing, idleAnswer]
  cases hother : (p.terminal side.other).isOpen <;>
    simp [Reply.on, hended, hopen, hother]

/-- A receive takes the first message that is under way. -/
theorem Carries.receive_cons {text : String} (h : p.Carries side (text :: waiting))
    (hlimit : p.limit side < 2 ^ 64 - 1) (size : Nat) :
    let r := ((p.channel side).receive size).on (p.withChannel side)
    r.answer = delivery (p.limit side) size text ∧ r.subject.Carries side waiting ∧
      ∀ s, r.subject.terminal s = p.terminal s := by
  have htext := h.isMessage text List.mem_cons_self
  have hframe :=
    SocketChannel.receive_frame (c := p.channel side) (by simpa using hlimit) htext
    (by simpa using h.bytes_eq) size
  simp only [hframe, Reply.on]
  have hended := h.endsWell
  refine ⟨by simp, ⟨?_, by simp, by simpa [EndsWell] using hended⟩, ?_⟩
  · intro text' hmem
    simpa [limit] using h.isMessage text' (List.mem_cons_of_mem text hmem)
  · intro s
    rcases side.eq_or_eq_other s with rfl | rfl
    · simp
    · simp

/-- What a call on one end does to the messages for that end. -/
theorem Carries.perform_own (h : p.Carries side waiting) (call : ChannelCall) :
    ∃ waiting', (p.perform side call).subject.Carries side waiting' ∧
      Flow p side ⟨side, call, p, p.perform side call⟩ waiting waiting' := by
  have hsent : ∀ r : Reply SocketPair ChannelAnswer,
      Exchange.sent? (p.terminal side.other).config.heartbeat side.other
        ⟨side, call, p, r⟩ = none := by
    simp [Exchange.sent?, (Side.other_ne side).symm]
  have hended := h.endsWell.perform side call
  have heffect := (p.channel side).effect_perform call
  simp only [SocketPair.perform] at hended ⊢
  generalize (p.channel side).perform call = r at heffect hended ⊢
  cases heffect with
  | @refused call e hroom =>
      refine ⟨waiting, by simpa [Reply.on] using h, .same (hsent _) ?_⟩
      cases hcall : call.room? with
      | none => simp [answered?, hcall]
      | some size => simp [answered?, Reply.on, hroom (by simp [hcall]), isAnswer]
  | told | closed_again =>
      refine ⟨waiting, by simpa [Reply.on] using h, .same (hsent _) ?_⟩
      simp [answered?, ChannelCall.room?]
  | closed =>
      refine ⟨waiting, ⟨?_, ?_, hended⟩,
        .same (hsent _) (by simp [answered?, ChannelCall.room?])⟩
      · simpa [Reply.on, limit] using h.isMessage
      · simpa [Reply.on, SocketChannel.close, ByteStream.shutDown,
          Pipe.finish] using h.bytes_eq
  | sent hcall _ _ _ | cut_short hcall _ _ _ =>
      have hroom := ChannelCall.room?_of_message? hcall
      refine ⟨waiting, ⟨?_, ?_, hended⟩,
        .same (hsent _) (by simp [answered?, hroom])⟩
      · simpa [Reply.on, limit] using h.isMessage
      · simpa [Reply.on] using h.bytes_eq
  | received size hopen =>
      by_cases hlimit : p.limit side < 2 ^ 64 - 1
      · cases waiting with
        | nil =>
            rw [h.receive_nil hlimit (by simpa using hopen)]
            exact ⟨[], h, .same (hsent _) (by simp [answered?])⟩
        | cons text waiting =>
            obtain ⟨hanswer, hcarries, _⟩ := h.receive_cons hlimit size
            refine ⟨waiting, hcarries, .taken size (hsent _) ?_⟩
            simp [answered?, hanswer, ChannelCall.room?]
      · have hoverflow :=
          (p.channel side).receive_of_overflow (by simpa using hlimit) size
        rw [hoverflow]
        refine ⟨waiting, by simpa [Reply.on] using h, .same (hsent _) ?_⟩
        simp [answered?, Reply.on, isAnswer]

/-- What a call on one end does to the messages for the other end, unless it was
to send one for which there was too little room. -/
theorem Carries.perform_other (h : p.Carries side.other waiting)
    (call : ChannelCall) (hroom : (p.perform side call).answer ≠ .error noRoom) :
    ∃ waiting', (p.perform side call).subject.Carries side.other waiting' ∧
      Flow p side.other ⟨side, call, p, p.perform side call⟩ waiting waiting' := by
  have hanswered : ∀ r : Reply SocketPair ChannelAnswer,
      answered? side.other ⟨side, call, p, r⟩ = none := by
    simp [answered?, (Side.other_ne side).symm]
  have hmessages : ∀ text ∈ waiting, IsMessage (p.limit side) text := by
    simpa using h.isMessage
  have hended := h.endsWell.perform side call
  have heffect := (p.channel side).effect_perform call
  simp only [SocketPair.perform] at hended hroom ⊢
  generalize (p.channel side).perform call = r at heffect hended hroom ⊢
  cases heffect with
  | refused _ =>
      exact ⟨waiting, by simpa [Reply.on] using h,
        .same (by simp [Exchange.sent?, Reply.on]) (hanswered _)⟩
  | told | closed_again =>
      exact ⟨waiting, by simpa [Reply.on] using h,
        .same (by simp [Exchange.sent?, ChannelCall.message?]) (hanswered _)⟩
  | closed =>
      refine ⟨waiting, ⟨?_, ?_, hended⟩,
        .same (by simp [Exchange.sent?, ChannelCall.message?]) (hanswered _)⟩
      · simpa [Reply.on, limit, SocketChannel.close] using hmessages
      · simpa [Reply.on, SocketChannel.close, ByteStream.shutDown,
          Pipe.finish] using h.bytes_eq
  | @sent call text hcall htext _ _ =>
      refine ⟨waiting ++ [text], ⟨?_, ?_, hended⟩, .added ?_ (hanswered _)⟩
      · intro text' hmem
        rcases List.mem_append.mp hmem with hold | hnew
        · simpa [Reply.on, limit] using hmessages text' hold
        · rw [List.mem_singleton.mp hnew]
          simpa [Reply.on, limit] using htext
      · simp [Reply.on, h.bytes_eq]
      · simpa [Exchange.sent?, Reply.on] using hcall
  | cut_short _ _ _ _ => exact absurd rfl hroom
  | received size hopen =>
      refine ⟨waiting, ⟨?_, ?_, hended⟩,
        .same (by simp [Exchange.sent?, ChannelCall.message?]) (hanswered _)⟩
      · simpa [Reply.on, limit, SocketChannel.receive] using hmessages
      · simpa [Reply.on, SocketChannel.receive] using h.bytes_eq

end Carries

/-- A call leaves whole messages under way to an end, unless the other end was
told to send one for which there was too little room. -/
theorem Carries.perform {p : SocketPair} {s : Side} {waiting : List String}
    (h : p.Carries s waiting) (side : Side) (call : ChannelCall)
    (hroom : side = s.other → (p.perform side call).answer ≠ .error noRoom) :
    ∃ waiting', (p.perform side call).subject.Carries s waiting' ∧
      Flow p s ⟨side, call, p, p.perform side call⟩ waiting waiting' := by
  rcases side.eq_or_eq_other s with rfl | rfl
  · exact h.perform_own call
  · exact h.perform_other call (hroom (by simp))

/-- The messages that the other end has sent are those that the receives of one
end have answered, each one as it should be, and those that are under way to it.
-/
structure Corresponds (config : Side → ChannelConfig)
    (record : List (Exchange SocketPair)) (p : SocketPair) (s : Side)
    (done waiting : List String) : Prop where
  sent_eq : record.filterMap (Exchange.sent? (config s.other).heartbeat s.other) =
    done ++ waiting
  answered : List.Forall₂
    (fun answered text =>
      answered.2 = delivery (config s).maxMessageLength.toNat answered.1 text)
    (record.filterMap (answered? s)) done
  carries : p.Carries s waiting

theorem Corresponds.perform {config : Side → ChannelConfig}
    {record : List (Exchange SocketPair)} {p : SocketPair} {s : Side}
    {done waiting : List String} (hconfig : ∀ s, (p.terminal s).config = config s)
    (h : Corresponds config record p s done waiting) (side : Side)
    (call : ChannelCall) (hroom : side = s.other →
      (p.perform side call).answer ≠ .error noRoom) :
    ∃ done' waiting',
      Corresponds config (record ++ [⟨side, call, p, p.perform side call⟩])
        (p.perform side call).subject s done' waiting' := by
  obtain ⟨hsent, hanswered, hcarries⟩ := h
  obtain ⟨waiting', hcarries', hflow⟩ := hcarries.perform side call hroom
  cases hflow with
  | same hnone hquiet =>
      rw [hconfig] at hnone
      refine ⟨done, waiting, ?_, ?_, hcarries'⟩
      · simpa [hnone] using hsent
      · simpa [hquiet] using hanswered
  | @added _ text hsome hquiet =>
      rw [hconfig] at hsome
      refine ⟨done, waiting ++ [text], ?_, ?_, hcarries'⟩
      · simp [hsome, hsent]
      · simpa [hquiet] using hanswered
  | @taken waiting text size hnone hanswer =>
      rw [hconfig] at hnone
      rw [limit, hconfig] at hanswer
      refine ⟨done ++ [text], waiting', ?_, ?_, hcarries'⟩
      · simp [hnone, hsent]
      · rw [List.filterMap_append]
        exact List.rel_append hanswered (by simp [hanswer])

section Corresponds

variable {config : Side → ChannelConfig} {record : List (Exchange SocketPair)}
  {p : SocketPair} {s : Side} {done waiting : List String}

/-- What a receive answered is the message of the same number. -/
theorem Corresponds.sent_of_answered
    (h : Corresponds config record p s done waiting) {k size : Nat}
    {answer : Except Error ChannelAnswer}
    (hk : (record.filterMap (answered? s))[k]? = some (size, answer)) :
    ∃ text, (record.filterMap
      (Exchange.sent? (config s.other).heartbeat s.other))[k]? =
        some text ∧
      answer = delivery (config s).maxMessageLength.toNat size text := by
  obtain ⟨hlength, hall⟩ := List.forall₂_iff_get.mp h.answered
  obtain ⟨hlt, hget⟩ := List.getElem?_eq_some_iff.mp hk
  have hdone : k < done.length := hlength ▸ hlt
  refine ⟨done[k], ?_, ?_⟩
  · rw [h.sent_eq, List.getElem?_append_left hdone, List.getElem?_eq_getElem hdone]
  · have hanswer := hall k hlt hdone
    rw [List.get_eq_getElem, List.get_eq_getElem, hget] at hanswer
    exact hanswer

/-- The messages behind those that were answered are under way. -/
theorem Corresponds.drop_sent (h : Corresponds config record p s done waiting) :
    (record.filterMap (Exchange.sent? (config s.other).heartbeat s.other)).drop
      (record.filterMap (answered? s)).length = waiting := by
  rw [h.sent_eq, h.answered.length_eq, List.drop_left]

theorem Corresponds.getElem?_sent (h : Corresponds config record p s done waiting)
    (i : Nat) :
    (record.filterMap (Exchange.sent? (config s.other).heartbeat s.other))[
      (record.filterMap (answered? s)).length + i]? = waiting[i]? := by
  rw [← List.getElem?_drop, h.drop_sent]

/-- Everything sent was answered when nothing is under way. -/
theorem Corresponds.length_eq_iff (h : Corresponds config record p s done waiting) :
    (record.filterMap (answered? s)).length =
      (record.filterMap
        (Exchange.sent? (config s.other).heartbeat s.other)).length ↔
      waiting = [] := by
  rw [h.sent_eq, h.answered.length_eq, List.length_append,
    ← List.length_eq_zero_iff]
  omega

end Corresponds

section Run

variable (config : Side → ChannelConfig) (rooms : Side → List Nat)
  (calls : List (Side × ChannelCall)) (s : Side)

theorem corresponds_fresh : Corresponds config [] (fresh config rooms) s [] [] := by
  refine ⟨rfl, .nil, ⟨by simp, ?_, ?_⟩⟩
  · cases s <;> rfl
  · cases s <;> rfl

/-- After any calls the configurations are as they were, and the pipes are ended
as they should be. -/
theorem kept_afterCalls :
    let q := afterCalls perform (fresh config rooms) calls
    (q.terminal s).config = config s ∧ q.EndsWell s := by
  refine conversation_induction
    (motive := fun _ (q : SocketPair) => (q.terminal s).config = config s ∧
      q.EndsWell s)
    ?_ ⟨?_, ?_⟩ calls
  · rintro record q side call ⟨hconfig, hended⟩
    exact ⟨(config_perform q side call s).trans hconfig, hended.perform side call⟩
  · cases s <;> rfl
  · cases s <;> rfl

/-- Two channels with the given configurations, after any calls, if what the
other end was told to send found room. -/
theorem corresponds_afterCalls
    (hroom : FoundRoom (exchanges perform (fresh config rooms) calls) s.other) :
    ∃ done waiting, Corresponds config
      (exchanges perform (fresh config rooms) calls)
      (afterCalls perform (fresh config rooms) calls) s done waiting := by
  refine (conversation_induction
    (motive := fun record (q : SocketPair) =>
      (∀ s, (q.terminal s).config = config s) ∧
      (FoundRoom record s.other → ∃ done waiting,
        Corresponds config record q s done waiting))
    ?_ ⟨?_, ?_⟩ calls).2 hroom
  · rintro record q side call ⟨hconfig, h⟩
    refine ⟨fun s => (config_perform q side call s).trans (hconfig s), ?_⟩
    intro hroom
    obtain ⟨done, waiting, h⟩ := h fun x hx => hroom x (List.mem_append_left _ hx)
    exact h.perform hconfig side call
      (hroom _ (List.mem_append_right _ List.mem_cons_self))
  · intro s
    cases s <;> rfl
  · exact fun _ => ⟨[], [], corresponds_fresh config rooms s⟩

end Run

theorem perform_receive {p : SocketPair} {side : Side}
    (hopen : (p.terminal side).isOpen = true) (size : Nat) :
    p.perform side (.receive size) =
      ((p.channel side).receive size).on (p.withChannel side) := by
  simp [perform, SocketChannel.perform, hopen]

/-- Receives in a row take the messages that are under way one by one, and find
nothing behind the last one. -/
theorem Carries.answers_receives {p : SocketPair} {side : Side}
    {waiting : List String} (h : p.Carries side waiting)
    (hlimit : p.limit side < 2 ^ 64 - 1) (hopen : (p.terminal side).isOpen = true)
    {sizes : List Nat} {i size : Nat} (hsize : sizes[i]? = some size) :
    ((exchanges SocketPair.perform p
      (sizes.map fun size => (side, .receive size))).map
        fun x => x.reply.answer)[i]? =
      some (match waiting[i]? with
        | some text => delivery (p.limit side) size text
        | none => p.idleAnswer side) := by
  induction sizes generalizing p waiting i with
  | nil => simp at hsize
  | cons room sizes ih =>
      simp only [List.map_cons, exchanges, perform_receive hopen]
      cases waiting with
      | nil =>
          rw [h.receive_nil hlimit hopen]
          cases i with
          | zero => simp
          | succ i =>
              rw [List.getElem?_cons_succ] at hsize ⊢
              simpa using ih h hlimit hopen hsize
      | cons text waiting =>
          obtain ⟨hanswer, hcarries, hterminal⟩ := h.receive_cons hlimit room
          cases i with
          | zero =>
              rw [List.getElem?_cons_zero, Option.some.injEq] at hsize
              subst hsize
              simpa using hanswer
          | succ i =>
              rw [List.getElem?_cons_succ] at hsize ⊢
              have hrest :=
                ih hcarries (by rwa [limit, hterminal]) (by rwa [hterminal]) hsize
              simpa [limit, idleAnswer, hterminal] using hrest

/-- While both ends are open, a receive would block if and only if no message is
under way, and then it changes nothing. -/
theorem Carries.receive_wouldBlock_iff {p : SocketPair} {side : Side}
    {waiting : List String} (h : p.Carries side waiting)
    (hlimit : p.limit side < 2 ^ 64 - 1) (hopen : (p.terminal side).isOpen = true)
    (hother : (p.terminal side.other).isOpen = true) (size : Nat) :
    let r := p.perform side (.receive size)
    (r.answer = .error (.system "receive message" .wouldBlock) ↔ waiting = []) ∧
      (waiting = [] → r.subject = p) := by
  rw [perform_receive hopen]
  cases waiting with
  | nil => simp [h.receive_nil hlimit hopen, idleAnswer, hother]
  | cons text waiting =>
      have hanswer := (h.receive_cons hlimit size).1
      have hdelivery := isAnswer_delivery (p.limit side) size text
      rw [← hanswer] at hdelivery
      refine ⟨⟨?_, by simp⟩, by simp⟩
      intro hblock
      rw [hblock] at hdelivery
      simp [isAnswer] at hdelivery

/-- A send that fails puts nothing on the stream, unless there was too little
room. -/
theorem subject_perform_of_error {p : SocketPair} {side : Side} {call : ChannelCall}
    (hcall : call.room? = none) {e : Error}
    (h : (p.perform side call).answer = .error e) (hroom : e ≠ noRoom) :
    (p.perform side call).subject = p := by
  have heffect := (p.channel side).effect_perform call
  simp only [perform, Reply.on] at h ⊢
  generalize (p.channel side).perform call = r at heffect h ⊢
  cases heffect with
  | refused _ => simp
  | told => simp
  | closed_again => simp
  | closed => simp [SocketChannel.close] at h
  | sent _ _ _ _ => simp at h
  | cut_short _ _ _ _ => exact absurd (Except.error.inj h).symm hroom
  | received _ _ => simp [ChannelCall.room?] at hcall

/-- While both ends are open, a send fails only for what is no message or has no
room. -/
theorem EndsWell.answer_send {p : SocketPair} {side : Side}
    (h : p.EndsWell side.other) (hopen : (p.terminal side).isOpen = true)
    (hother : (p.terminal side.other).isOpen = true) {call : ChannelCall}
    {text : String}
    (hcall : call.message? (p.terminal side).config.heartbeat = some text) :
    (p.perform side call).answer = p.sendAnswer side text := by
  have hchannel : (p.channel side).isOpen = true := by simpa using hopen
  have hsend : (p.channel side).perform call = (p.channel side).send text := by
    cases call <;> simp_all [ChannelCall.message?, SocketChannel.perform]
  have hended : (p.incoming side.other).ended = false := by
    rw [EndsWell] at h
    simp [h, hopen, hother]
  simp only [SocketPair.perform, hsend, Reply.on, SocketChannel.send, sendAnswer,
    limit_channel]
  cases hcheck : checkMessage (p.limit side) text with
  | error e => rfl
  | ok =>
      have hparts := (checkMessage_eq_ok_iff.mp hcheck).nil_notMem_frameParts
      by_cases hroom : p.HasRoom side text
      · simp [Pipe.writeEach_of_hasRoom hparts hended hroom, hroom, bind,
          Except.bind, pure, Except.pure]
      · simp [Pipe.writeEach_of_not_hasRoom hparts hended hroom, hroom, noRoom,
          bind, Except.bind, throw, throwThe, MonadExceptOf.throw]

/-- Without room the start of a message stays on the stream, and merges with the
next one. -/
example :
    let p : SocketPair := { stream := idleStream fun _ => [3] }
    let q := afterCalls perform p [(.a, .send "alpha"), (.a, .send "beta")]
    ¬p.HasRoom .a "alpha" ∧ (p.perform .a (.send "alpha")).answer = .error noRoom ∧
      (q.perform .b (.receive 9)).answer = .ok (.received (utf8 "alpbeta")) := by
  exact ⟨by decide, by decide, by decide⟩

end SocketPair

end BoardQuery
