/-
The arrival of a stream.  The bytes of a stream may come in pieces, with receives
between them.  A receive that finds only the start of a line uses it up, so what is
delivered is that of the stream in one piece as long as no receive comes in the
middle of a line with nothing before it to take.
-/
import BoardQuery.Proofs.Framing

namespace BoardQuery

/-- What can happen while a stream arrives: a piece of it comes, or a message is
asked for. -/
inductive Arrival where
  | piece (bytes : Bytes)
  | receive (size : Nat)
deriving DecidableEq, Repr

namespace Arrival

def event : Arrival → SocketEvent
  | .piece bytes => .peer (.write bytes)
  | .receive size => .own (.receive size)

def written : List Arrival → Bytes
  | [] => []
  | .piece bytes :: script => bytes ++ written script
  | .receive _ :: script => written script

theorem written_append_receives (script : List Arrival) (drain : List Nat) :
    written (script ++ drain.map .receive) = written script := by
  induction script with
  | nil =>
      induction drain with
      | nil => rfl
      | cons size drain ih => exact ih
  | cons arrival script ih => cases arrival <;> simp [written, ih]

/-- The receives of a script have room for a line of this length. -/
def Fits (length : Nat) (script : List Arrival) : Prop :=
  ∀ size, .receive size ∈ script → length ≤ size

end Arrival

open Arrival

def isDelivered : Except Error ChannelAnswer → Bool
  | .error (.system _ .wouldBlock) => false
  | _ => true

/-- What is delivered of a line for which there is room. -/
def framed (limit : Nat) (line : Bytes) : Except Error ChannelAnswer :=
  if line.length ≤ limit then .ok (.received line)
  else .error (.messageTooLong line.length limit)

/-- The length of the line behind an answer, as far as the answer shows it. -/
def answeredLength : Except Error ChannelAnswer → Nat
  | .ok (.received bytes) => bytes.length
  | .error (.messageTooLong length _) => length
  | _ => 0

theorem answeredLength_framed (limit : Nat) (line : Bytes) :
    answeredLength (framed limit line) = line.length := by
  unfold framed
  split_ifs <;> rfl

/-- A line for which there is room is delivered whole. -/
theorem answer_ofLine {limit size : Nat} {line : Bytes}
    (hroom : line.length ≤ limit → line.length ≤ size) :
    (Finding.ofLine limit line).answer limit size = framed limit line := by
  by_cases hfits : line.length ≤ limit
  · simp [Finding.ofLine, framed, Finding.answer, hfits,
      List.take_of_length_le (hroom hfits)]
  · simp [Finding.ofLine, framed, Finding.answer, hfits]

/-- A line is always delivered, and never as more than it is. -/
theorem delivered_ofLine (limit size : Nat) (line : Bytes) :
    isDelivered ((Finding.ofLine limit line).answer limit size) = true ∧
      answeredLength ((Finding.ofLine limit line).answer limit size) ≤
        line.length := by
  by_cases hfits : line.length ≤ limit
  · simp [Finding.ofLine, Finding.answer, hfits, isDelivered, answeredLength]
  · simp [Finding.ofLine, Finding.answer, hfits, isDelivered, answeredLength]

namespace SocketChannel

def delivered (c : SocketChannel) (script : List Arrival) :
    List (Except Error ChannelAnswer) :=
  (c.answers (script.map event)).filter isDelivered

/-- Some receive finds the start of a line and nothing before it, and the rest
of that line is still to come. -/
def Tears (c : SocketChannel) : List Arrival → Prop
  | [] => False
  | .piece bytes :: script => (c.after (event (.piece bytes))).Tears script
  | .receive size :: script =>
      let waiting := c.stream.incoming.bytes
      (wholeLines waiting = [] ∧ lines waiting ≠ [] ∧ newline ∈ written script) ∨
        (c.after (event (.receive size))).Tears script

namespace Hears

variable {c : SocketChannel} {limit : Nat} {bytes : Bytes}

/-- A receive either delivers the first whole line, or uses up the start of a
line that is all there is and delivers nothing. -/
theorem receive_cases (h : c.Hears limit { bytes }) (size : Nat) :
    let after := c.after (event (.receive size))
    (∃ line rest,
      (∀ more, wholeLines (bytes ++ more) = line :: wholeLines (rest ++ more)) ∧
      after.Hears limit { bytes := rest } ∧
      ∀ script, c.delivered (.receive size :: script) =
        (Finding.ofLine limit line).answer limit size :: after.delivered script) ∨
    ∃ tail, newline ∉ tail ∧ lines bytes = lines tail ∧
      (∀ more, wholeLines (bytes ++ more) = wholeLines (tail ++ more)) ∧
      after.Hears limit {} ∧
      ∀ script, c.delivered (.receive size :: script) = after.delivered script := by
  intro after
  have hafter := h.receive size
  have hanswer := h.answer_receive size
  rcases nextLine_cases limit false bytes with ⟨line, rest, hline, -, hlines⟩ |
    ⟨tail, htail, hnothing, hsame, hlines⟩
  · left
    rw [hline] at hafter hanswer
    refine ⟨line, rest, hlines, hafter, ?_⟩
    intro script
    simp [delivered, answers, event, hanswer, (delivered_ofLine limit size line).1,
      after]
  · right
    rw [hnothing] at hafter hanswer
    refine ⟨tail, htail, hsame, hlines, hafter, ?_⟩
    intro script
    simp [delivered, answers, event, hanswer, Finding.ofTail, Finding.answer,
      isDelivered, after]

/-- Enough receives take all the whole lines that are there. -/
theorem delivered_receives (h : c.Hears limit { bytes }) {sizes : List Nat}
    (henough : (wholeLines bytes).length ≤ sizes.length)
    (hroom : ∀ line ∈ wholeLines bytes, line.length ≤ limit →
      ∀ size ∈ sizes, line.length ≤ size) :
    c.delivered (sizes.map .receive) = (wholeLines bytes).map (framed limit) := by
  induction sizes generalizing c bytes with
  | nil =>
      have hnone : wholeLines bytes = [] := by simpa using henough
      simp [hnone, delivered, answers]
  | cons size sizes ih =>
      rw [List.map_cons]
      rcases h.receive_cases size with ⟨line, rest, hlines, hafter, hdelivered⟩ |
        ⟨tail, htail, -, hlines, hafter, hdelivered⟩
      · have hwhole : wholeLines bytes = line :: wholeLines rest := by
          simpa using hlines []
        rw [hwhole] at henough hroom
        have hthis := fun hfits =>
          hroom line List.mem_cons_self hfits size List.mem_cons_self
        rw [hdelivered, answer_ofLine hthis, hwhole, List.map_cons]
        congr 1
        apply ih hafter
        · exact Nat.le_of_succ_le_succ henough
        · intro other hother hfits room hsize
          exact hroom other (List.mem_cons_of_mem line hother) hfits room
            (List.mem_cons_of_mem size hsize)
      · have hnone : wholeLines bytes = [] := by
          simpa [wholeLines_tail htail] using hlines []
        rw [hdelivered, hnone]
        exact ih hafter (by simp) (by simp)

/-- As long as no line is torn, what is delivered are the whole lines of the
stream. -/
theorem delivered_of_not_tears (h : c.Hears limit { bytes }) {script : List Arrival}
    {drain : List Nat} (hwhole : ¬c.Tears script)
    (henough : (wholeLines (bytes ++ written script)).length ≤ drain.length)
    (hroom : ∀ line ∈ wholeLines (bytes ++ written script), line.length ≤ limit →
      Fits line.length (script ++ drain.map .receive)) :
    c.delivered (script ++ drain.map .receive) =
      (wholeLines (bytes ++ written script)).map (framed limit) := by
  induction script generalizing c bytes with
  | nil =>
      simp only [written, List.append_nil, List.nil_append] at henough hroom ⊢
      apply h.delivered_receives henough
      intro line hline hfits size hsize
      exact hroom line hline hfits size (List.mem_map_of_mem hsize)
  | cons arrival script ih =>
      cases arrival with
      | piece more =>
          simp only [written, ← List.append_assoc] at henough hroom ⊢
          apply ih (h.write more) hwhole henough
          intro line hline hfits size hsize
          exact hroom line hline hfits size (List.mem_cons_of_mem _ hsize)
      | receive size =>
          simp only [Tears, h.incoming_eq, not_or] at hwhole
          obtain ⟨hthis, hlater⟩ := hwhole
          simp only [written] at henough hroom ⊢
          rw [List.cons_append]
          rcases h.receive_cases size with
            ⟨line, rest, hlines, hafter, hdelivered⟩ |
            ⟨tail, htail, hsame, hlines, hafter, hdelivered⟩
          · rw [hlines] at henough hroom
            have hfirst := fun hfits =>
              hroom line List.mem_cons_self hfits size List.mem_cons_self
            rw [hdelivered, answer_ofLine hfirst, hlines, List.map_cons]
            congr 1
            apply ih hafter hlater
            · exact Nat.le_of_succ_le henough
            · intro other hother hfits room hmem
              exact hroom other (List.mem_cons_of_mem line hother) hfits room
                (List.mem_cons_of_mem _ hmem)
          · have hnone : wholeLines bytes = [] := by
              simpa [wholeLines_tail htail] using hlines []
            have hlost : tail = [] ∨ newline ∉ written script := by
              rw [← lines_eq_nil_iff htail, ← hsame]
              by_contra hboth
              rw [not_or, not_not] at hboth
              exact hthis ⟨hnone, hboth⟩
            have hkept : wholeLines (bytes ++ written script) =
                wholeLines (written script) := by
              rw [hlines, wholeLines_append htail hlost]
            rw [hkept] at henough hroom
            rw [hdelivered, hkept]
            apply ih hafter hlater henough
            intro line hline hfits room hmem
            exact hroom line hline hfits room (List.mem_cons_of_mem _ hmem)

/-- What is delivered is never more than the whole lines of the stream, and less
if a line is torn. -/
theorem delivered_length (h : c.Hears limit { bytes }) (script : List Arrival) :
    let length := ((c.delivered script).map answeredLength).sum
    length ≤ wholeLength (bytes ++ written script) ∧
      (c.Tears script → length < wholeLength (bytes ++ written script)) := by
  induction script generalizing c bytes with
  | nil => simp [delivered, answers, Tears]
  | cons arrival script ih =>
      cases arrival with
      | piece more =>
          simp only [written, ← List.append_assoc]
          exact ih (h.write more)
      | receive size =>
          simp only [written, Tears, h.incoming_eq]
          rcases h.receive_cases size with
            ⟨line, rest, hlines, hafter, hdelivered⟩ |
            ⟨tail, htail, hsame, hlines, hafter, hdelivered⟩
          · obtain ⟨hle, hlt⟩ := ih hafter
            have hthis := (delivered_ofLine limit size line).2
            have hwhole : wholeLines bytes = line :: wholeLines rest := by
              simpa using hlines []
            have hlength : wholeLength (bytes ++ written script) =
                line.length + wholeLength (rest ++ written script) := by
              rw [wholeLength, hlines, List.flatten_cons, List.length_append,
                wholeLength]
            rw [hdelivered, List.map_cons, List.sum_cons, hlength, hwhole]
            refine ⟨Nat.add_le_add hthis hle, ?_⟩
            rintro (⟨hnone, -⟩ | hlater)
            · contradiction
            · exact Nat.add_lt_add_of_le_of_lt hthis (hlt hlater)
          · obtain ⟨hle, hlt⟩ := ih hafter
            rw [List.nil_append] at hle hlt
            have hlength : wholeLength (bytes ++ written script) =
                wholeLength (tail ++ written script) := by
              rw [wholeLength, hlines, wholeLength]
            rw [hdelivered, hlength, wholeLength_append htail, hsame]
            split_ifs with hmem
            · refine ⟨Nat.le_add_left_of_le hle, ?_⟩
              rintro (⟨-, hstart, -⟩ | hlater)
              · rw [Ne, lines_eq_nil_iff htail] at hstart
                exact hle.trans_lt (Nat.lt_add_of_pos_left
                  (List.length_pos_iff.mpr hstart))
              · exact Nat.lt_add_left _ (hlt hlater)
            · refine ⟨hle, ?_⟩
              rintro (⟨-, -, hcome⟩ | hlater)
              · contradiction
              · exact hlt hlater

end Hears

/-- Receives at the end of a script neither bring bytes nor mend what is torn. -/
theorem Tears.append_receives {c : SocketChannel} {script : List Arrival}
    (h : c.Tears script) (drain : List Nat) :
    c.Tears (script ++ drain.map .receive) := by
  induction script generalizing c with
  | nil => exact h.elim
  | cons arrival script ih =>
      cases arrival with
      | piece more => exact ih h
      | receive size =>
          simp only [Tears, List.cons_append, written_append_receives] at h ⊢
          exact h.imp_right ih

/-- A stream in one piece is delivered as its whole lines. -/
theorem Hears.delivered_at_once {c : SocketChannel} {limit : Nat}
    (h : c.Hears limit {}) {stream : Bytes} {drain : List Nat}
    (henough : (wholeLines stream).length ≤ drain.length)
    (hroom : ∀ line ∈ wholeLines stream, line.length ≤ limit →
      Fits line.length (drain.map .receive)) :
    c.delivered (.piece stream :: drain.map .receive) =
      (wholeLines stream).map (framed limit) := by
  apply (h.write stream).delivered_receives henough
  intro line hline hfits size hsize
  exact hroom line hline hfits size (List.mem_map_of_mem hsize)

/-- A stream that comes in pieces, with receives in between and enough of them
in the end, all with room for the lines of it, is delivered like the stream in
one piece exactly if no receive tears a line: if none finds only the start of a
line whose end comes later. -/
theorem delivered_eq_at_once_iff {config : ChannelConfig}
    (hconfig : config.validate = .ok ())
    (hlimit : config.maxMessageLength.toNat < 2 ^ 64 - 1) (outgoing : Pipe)
    (script : List Arrival) (drain : List Nat)
    (henough : (wholeLines (written script)).length ≤ drain.length)
    (hroom : ∀ line ∈ wholeLines (written script),
      line.length ≤ config.maxMessageLength.toNat →
      Fits line.length (script ++ drain.map .receive)) :
    ∃ c, ofStream config { outgoing } = .ok c ∧
      (c.delivered (script ++ drain.map .receive) =
        c.delivered (.piece (written script) :: drain.map .receive) ↔
          ¬c.Tears script) := by
  refine ⟨_, ofStream_eq_ok hconfig { outgoing }, ?_⟩
  have hnew := hears_new hlimit { outgoing }
  have hatOnce := hnew.delivered_at_once henough fun line hline hfits size hsize =>
    hroom line hline hfits size (List.mem_append_right script hsize)
  rw [hatOnce]
  constructor
  · intro hsame htears
    have hless := (hnew.delivered_length _).2 (htears.append_receives drain)
    have hall : (((wholeLines (written script)).map
        (framed config.maxMessageLength.toNat)).map answeredLength).sum =
          wholeLength (written script) := by
      simp only [List.map_map, Function.comp_def, answeredLength_framed,
        wholeLength, List.length_flatten]
    rw [hsame, written_append_receives, List.nil_append, hall] at hless
    exact Nat.lt_irrefl _ hless
  · intro hwhole
    exact hnew.delivered_of_not_tears hwhole henough hroom

/-- A script that is delivered like its stream in one piece: the receive that
comes too early finds a blank line only, and the second one a whole line before
the start of another. -/
theorem delivered_eq_at_once_early :
    let config : ChannelConfig := { maxMessageLength := 5 }
    let script : List Arrival :=
      [.piece (utf8 "\n"), .receive 5, .piece (utf8 "alpha\nlet"), .receive 5,
        .piece (utf8 "ter\n")]
    ∃ c, ofStream config {} = .ok c ∧ ¬c.Tears script ∧
      c.delivered (script ++ [5, 5].map .receive) =
        c.delivered (.piece (written script) :: [5, 5].map .receive) := by
  intro config script
  have hconfig : config.validate = .ok () := by decide
  have hlimit : config.maxMessageLength.toNat < 2 ^ 64 - 1 := by decide
  have hlines : wholeLines (written script) = [utf8 "alpha", utf8 "letter"] := by
    decide
  have hroom : ∀ line ∈ wholeLines (written script), line.length ≤ 5 →
      Fits line.length (script ++ [5, 5].map .receive) := by
    intro line _ hfits size hsize
    have hsize : size = 5 := by simpa [script] using hsize
    rwa [hsize]
  obtain ⟨c, hc, hiff⟩ := delivered_eq_at_once_iff hconfig hlimit {} script [5, 5]
    (by simp [hlines]) hroom
  have hnew := Except.ok.inj ((ofStream_eq_ok hconfig {}).symm.trans hc)
  have hsame : c.delivered (script ++ [5, 5].map .receive) =
      c.delivered (.piece (written script) :: [5, 5].map .receive) := by
    subst hnew
    decide
  exact ⟨c, hc, hiff.mp hsame, hsame⟩

/-- A line of which a receive finds only the start: the rest of it is delivered
as if it were a line. -/
theorem delivered_torn_line :
    ∃ c, ofStream {} {} = .ok c ∧
      c.delivered [.piece (utf8 "ab"), .receive 64, .piece (utf8 "c\n"),
        .receive 64] =
        [.ok (.received (utf8 "c"))] ∧
      c.delivered [.piece (utf8 "abc\n"), .receive 64, .receive 64] =
        [.ok (.received (utf8 "abc"))] := by
  have hconfig : ({} : ChannelConfig).validate = .ok () := by decide
  exact ⟨_, ofStream_eq_ok hconfig {}, by decide, by decide⟩

end SocketChannel

end BoardQuery
