/-
The length in the report on a line above the limit.  A reader keeps the start of
such a line and counts the bytes that it passes over, and takes the last of them
for the newline.  So the report is exact for every line that a newline ends.
-/
import BoardQuery.Proofs.Delivery

namespace BoardQuery

/-- The lines of a pipe that are there to their end: those that a newline ends
and, if nothing more will come, what is behind them. -/
def Pipe.completeLines (p : Pipe) : List Bytes :=
  if p.ended then lines p.bytes else wholeLines p.bytes

namespace Pipe

variable {p : Pipe} {rest first tail line : Bytes}

theorem completeLines_line (hlines : lines p.bytes = first :: lines rest)
    (hwhole : wholeLines p.bytes = first :: wholeLines rest) :
    p.completeLines = first :: { p with bytes := rest }.completeLines := by
  unfold completeLines
  split_ifs
  · exact hlines
  · exact hwhole

/-- Where no newline is left, the end of the stream makes a line of what there
is. -/
theorem completeLines_tail (htail : newline ∉ tail)
    (hlines : lines p.bytes = lines tail) (hwhole : wholeLines p.bytes = [])
    {i : Nat} (h : p.completeLines[i]? = some line) :
    p.ended = true ∧ i = 0 ∧ tail = line := by
  unfold completeLines at h
  split_ifs at h with hended
  · have hne : tail ≠ [] := by
      rintro rfl
      simp [hlines] at h
    rw [hlines, lines_tail hne htail, List.getElem?_singleton] at h
    exact ⟨hended, by simpa using h⟩
  · simp [hwhole] at h

end Pipe

/-- The length that is reported for a line above the limit.  Of a line without a
newline behind it one byte goes uncounted, unless none is passed over. -/
def reportedLength (limit : Nat) (terminated : Bool) (line : Bytes) : Nat :=
  if terminated then line.length else limit + 1 + (line.length - (limit + 1) - 1)

theorem reportedLength_eq_iff {limit : Nat} {line : Bytes}
    (hlong : limit < line.length) (terminated : Bool) :
    (reportedLength limit terminated line = line.length ↔
      terminated = true ∨ line.length = limit + 1) ∧
    (reportedLength limit terminated line ≠ line.length →
      reportedLength limit terminated line + 1 = line.length) := by
  cases terminated with
  | true => simp [reportedLength]
  | false =>
      simp only [reportedLength, Bool.false_eq_true, ↓reduceIte, false_or]
      omega

/-- What is found where a line above the limit starts. -/
theorem Finding.answer_ofLine_of_long {limit : Nat} {line : Bytes}
    (hlong : limit < line.length) (size : Nat) :
    (ofLine limit line).answer limit size =
      .error (.messageTooLong (reportedLength limit true line) limit) := by
  rw [ofLine, if_neg (Nat.not_le.mpr hlong)]
  rfl

theorem Finding.answer_ofTail_of_long {limit : Nat} {tail : Bytes}
    (hlong : limit < tail.length) (size : Nat) :
    (ofTail limit true tail).answer limit size =
      .error (.messageTooLong (reportedLength limit false tail) limit) := by
  have hne : tail ≠ [] := by
    rintro rfl
    exact Nat.not_lt_zero limit hlong
  rw [ofTail, if_neg (by decide), if_neg hne, if_neg (Nat.not_le.mpr hlong)]
  rfl

namespace SocketChannel

def afterAll (c : SocketChannel) (events : List SocketEvent) : SocketChannel :=
  events.foldl after c

theorem limit_after (c : SocketChannel) (event : SocketEvent) :
    (c.after event).limit = c.limit := by
  cases event with
  | peer call => rfl
  | own call =>
      have heffect := effect_perform c call
      change (c.perform call).subject.limit = c.limit
      generalize c.perform call = reply at heffect
      cases heffect <;> rfl

/-- Nothing that happens at a channel changes its limit. -/
theorem limit_afterAll (c : SocketChannel) (events : List SocketEvent) :
    (c.afterAll events).limit = c.limit := by
  induction events generalizing c with
  | nil => rfl
  | cons event events ih => exact (ih (c.after event)).trans (c.limit_after event)

/-- The receives report the lines above the limit, each in its turn. -/
theorem Hears.reports {c : SocketChannel} {limit : Nat} {p : Pipe}
    (h : c.Hears limit p) {sizes : List Nat} {i : Nat} {line : Bytes}
    (hline : p.completeLines[i]? = some line) (hlong : limit < line.length)
    (hi : i < sizes.length) :
    (c.answers (sizes.map fun size => .own (.receive size)))[i]? =
      some (.error (.messageTooLong
        (reportedLength limit (decide (i < (wholeLines p.bytes).length)) line)
          limit)) := by
  induction sizes generalizing c p i with
  | nil => exact absurd hi (Nat.not_lt_zero i)
  | cons size sizes ih =>
      have hanswer := h.answer_receive size
      have hafter := h.receive size
      rw [List.map_cons, answers]
      rcases nextLine_cases limit p.ended p.bytes with
        ⟨first, rest, hfound, hlines, hwhole⟩ | ⟨tail, htail, hfound, hlines, hwhole⟩
      · have hwhole : wholeLines p.bytes = first :: wholeLines rest := by
          simpa using hwhole []
        rw [hfound] at hanswer hafter
        rw [Pipe.completeLines_line hlines hwhole] at hline
        rw [hwhole, List.length_cons]
        cases i with
        | zero =>
            obtain rfl : first = line := by simpa using hline
            rw [List.getElem?_cons_zero, hanswer,
              Finding.answer_ofLine_of_long hlong]
            simp
        | succ i =>
            rw [List.getElem?_cons_succ] at hline ⊢
            simp only [Nat.succ_lt_succ_iff]
            exact ih hafter hline (Nat.lt_of_succ_lt_succ hi)
      · have hwhole : wholeLines p.bytes = [] := by
          simpa [wholeLines_tail htail] using hwhole []
        obtain ⟨hended, rfl, rfl⟩ :=
          Pipe.completeLines_tail htail hlines hwhole hline
        rw [hfound, hended] at hanswer
        rw [List.getElem?_cons_zero, hanswer, Finding.answer_ofTail_of_long hlong,
          hwhole]
        rfl

/-- Whatever has happened at an open channel, each line above the limit that is
there to its end is reported in its turn.  The report gives its exact length if
and only if a newline ends the line or the line is one byte above the limit, and
one byte less otherwise. -/
theorem reported_length_exact_iff {config : ChannelConfig}
    (hconfig : config.validate = .ok ())
    (hlimit : config.maxMessageLength.toNat < 2 ^ 64 - 1) (outgoing : Pipe)
    (events : List SocketEvent) (sizes : List Nat) :
    let limit := config.maxMessageLength.toNat
    ∃ c, ofStream config { outgoing } = .ok c ∧
      let now := c.afterAll events
      let waiting := now.stream.incoming
      now.isOpen = true → ∀ (i : Nat) (line : Bytes),
        waiting.completeLines[i]? = some line →
        limit < line.length → i < sizes.length →
        ∃ length, (now.answers (sizes.map fun size => .own (.receive size)))[i]? =
            some (.error (.messageTooLong length limit)) ∧
          (length = line.length ↔
            i < (wholeLines waiting.bytes).length ∨ line.length = limit + 1) ∧
          (length ≠ line.length → length + 1 = line.length) := by
  intro limit
  refine ⟨_, ofStream_eq_ok hconfig { outgoing }, ?_⟩
  intro now waiting hopen i line hline hlong hi
  have hnow : now.Hears limit waiting :=
    ⟨hopen, limit_afterAll _ events, hlimit, rfl⟩
  obtain ⟨hexact, hless⟩ :=
    reportedLength_eq_iff hlong (decide (i < (wholeLines waiting.bytes).length))
  rw [decide_eq_true_iff] at hexact
  exact ⟨_, hnow.reports hline hlong hi, hexact, hless⟩

/-- Behind a message, a long line that a newline ends, and one that the end of
the stream ends one byte above the limit. -/
theorem reported_length_exact_iff_short :
    let config : ChannelConfig := { maxMessageLength := 5 }
    let events : List SocketEvent :=
      [.peer (.write (utf8 "al")), .peer (.write (utf8 "pha\nlett")),
        .peer (.write (utf8 "ers\nnumber")), .own (.receive 9), .peer .finish]
    config.maxMessageLength.toNat < 2 ^ 64 - 1 ∧
    ∃ c, ofStream config {} = .ok c ∧ (c.afterAll events).isOpen = true ∧
      (c.afterAll events).stream.incoming.completeLines =
        [utf8 "letters", utf8 "number"] ∧
      let answers :=
        (c.afterAll events).answers ([9, 9].map fun size => .own (.receive size))
      answers[0]? = some (.error (.messageTooLong 7 5)) ∧
      answers[1]? = some (.error (.messageTooLong 6 5)) := by
  intro config events
  have hconfig : config.validate = .ok () := by decide
  have hlimit : config.maxMessageLength.toNat < 2 ^ 64 - 1 := by decide
  obtain ⟨c, hc, hreports⟩ :=
    reported_length_exact_iff hconfig hlimit {} events [9, 9]
  obtain rfl := Except.ok.inj ((ofStream_eq_ok hconfig {}).symm.trans hc)
  have hopen : (afterAll { config } events).isOpen = true := by decide
  have hlines : (afterAll { config } events).stream.incoming.completeLines =
      [utf8 "letters", utf8 "number"] := by decide
  have hwhole :
    (wholeLines (afterAll { config } events).stream.incoming.bytes).length = 1 := by
    decide
  obtain ⟨length, hfirst, hexact, _⟩ :=
    hreports hopen 0 (utf8 "letters") (by rw [hlines]; rfl) (by decide) (by decide)
  obtain ⟨length', hsecond, hexact', _⟩ :=
    hreports hopen 1 (utf8 "number") (by rw [hlines]; rfl) (by decide) (by decide)
  obtain rfl := hexact.mpr (.inl (by rw [hwhole]; decide))
  obtain rfl := hexact'.mpr (.inr (by decide))
  exact ⟨hlimit, _, hc, hopen, hlines, hfirst, hsecond⟩

/-- A line two bytes above the limit that the end of the stream ends is reported
as one of a byte less. -/
theorem reported_length_falls_short :
    ∃ c, ofStream { maxMessageLength := 5 } {} = .ok c ∧
      (utf8 "letters").length = 7 ∧
      c.answers [.peer (.write (utf8 "letters")), .peer .finish,
        .own (.receive 9)] =
        [.error (.messageTooLong 6 5)] := by
  have hconfig : ({ maxMessageLength := 5 } : ChannelConfig).validate = .ok () := by
    decide
  exact ⟨_, ofStream_eq_ok hconfig {}, by decide, by decide⟩

end SocketChannel

end BoardQuery
