/-
The lines of a stream.  A stream is cut at every newline and blank lines are
left out; the reader of lines finds them one after the other, each in finitely
many passes.
-/
import BoardQuery.Channel.Line
import Mathlib.Algebra.Group.Nat.Defs
import Mathlib.Data.List.TakeWhile

namespace BoardQuery

/-- The lines of a stream, also the last one if nothing ends it. -/
def lines (stream : Bytes) : List Bytes :=
  (stream.splitOn newline).filter (· ≠ [])

/-- The lines of a stream that a newline ends. -/
def wholeLines (stream : Bytes) : List Bytes :=
  (stream.splitOn newline).dropLast.filter (· ≠ [])

@[simp] theorem lines_nil : lines [] = [] := by
  simp [lines]

theorem lines_append_newline (before after : Bytes) :
    lines (before ++ newline :: after) = lines before ++ lines after := by
  simp [lines, List.splitOn_append_cons_self]

@[simp] theorem lines_newline (rest : Bytes) :
    lines (newline :: rest) = lines rest := by
  simpa using lines_append_newline [] rest

theorem lines_tail {tail : Bytes} (hne : tail ≠ []) (htail : newline ∉ tail) :
    lines tail = [tail] := by
  simp [lines, List.splitOn_eq_singleton htail, hne]

theorem lines_eq_nil_iff {tail : Bytes} (htail : newline ∉ tail) :
    lines tail = [] ↔ tail = [] := by
  by_cases hblank : tail = []
  · simp [hblank]
  · simp [lines_tail hblank htail, hblank]

theorem flatten_lines {tail : Bytes} (htail : newline ∉ tail) :
    (lines tail).flatten = tail := by
  by_cases hblank : tail = []
  · simp [hblank]
  · simp [lines_tail hblank htail]

theorem lines_line {line : Bytes} (hne : line ≠ []) (hline : newline ∉ line)
    (rest : Bytes) :
    lines (line ++ newline :: rest) = line :: lines rest := by
  rw [lines_append_newline, lines_tail hne hline, List.singleton_append]

theorem wholeLines_append_newline (before after : Bytes) :
    wholeLines (before ++ newline :: after) = lines before ++ wholeLines after := by
  have hne : after.splitOn newline ≠ [] := List.splitOn_ne_nil newline after
  simp [wholeLines, lines, List.splitOn_append_cons_self,
    List.dropLast_append_of_ne_nil hne]

theorem wholeLines_tail {tail : Bytes} (htail : newline ∉ tail) :
    wholeLines tail = [] := by
  simp [wholeLines, List.splitOn_eq_singleton htail]

@[simp] theorem wholeLines_nil : wholeLines [] = [] :=
  wholeLines_tail List.not_mem_nil

@[simp] theorem wholeLines_newline (rest : Bytes) :
    wholeLines (newline :: rest) = wholeLines rest := by
  simpa using wholeLines_append_newline [] rest

theorem wholeLines_line {line : Bytes} (hne : line ≠ []) (hline : newline ∉ line)
    (rest : Bytes) : wholeLines (line ++ newline :: rest) =
    line :: wholeLines rest := by
  rw [wholeLines_append_newline, lines_tail hne hline, List.singleton_append]

/-- The start of a line does not count if it is blank or nothing ends it. -/
theorem wholeLines_append {tail stream : Bytes} (htail : newline ∉ tail)
    (h : tail = [] ∨ newline ∉ stream) :
    wholeLines (tail ++ stream) = wholeLines stream := by
  rcases h with rfl | hstream
  · rw [List.nil_append]
  · have hboth : newline ∉ tail ++ stream := by simp [htail, hstream]
    rw [wholeLines_tail hboth, wholeLines_tail hstream]

/-- A stream is empty, or starts with a blank line, or is the start of a line,
or starts with a line. -/
theorem stream_induction {motive : Bytes → Prop} (nil : motive [])
    (blank : ∀ rest, motive rest → motive (newline :: rest))
    (tail : ∀ tail, tail ≠ [] → newline ∉ tail → motive tail)
    (line : ∀ line rest, line ≠ [] → newline ∉ line → motive rest →
      motive (line ++ newline :: rest)) (stream : Bytes) : motive stream := by
  induction hlength : stream.length using Nat.strongRecOn generalizing stream with
  | ind length ih =>
      by_cases hmem : newline ∈ stream
      · obtain ⟨first, rest, rfl, hfirst⟩ := List.eq_append_cons_of_mem hmem
        have hrest : motive rest := by
          apply ih rest.length _ rest rfl
          simp only [List.length_append, List.length_cons] at hlength
          omega
        by_cases hblank : first = []
        · simpa only [hblank, List.nil_append] using blank rest hrest
        · exact line first rest hblank hfirst hrest
      · by_cases hblank : stream = []
        · simpa only [hblank] using nil
        · exact tail stream hblank hmem

/-- What is found where a line starts. -/
def Finding.ofLine (limit : Nat) (line : Bytes) : Finding :=
  if line.length ≤ limit then .line line else .tooLong line.length

theorem beforeNewline_tail {tail : Bytes} (htail : newline ∉ tail) :
    beforeNewline tail = (tail, []) := by
  have hall : tail.takeWhile (· ≠ newline) = tail := by
    rw [List.takeWhile_eq_self_iff]
    intro b hb
    simpa using fun h : b = newline => htail (h ▸ hb)
  simp only [beforeNewline, hall, List.drop_length]

theorem dropWhile_newline {line : Bytes} (hne : line ≠ []) (hline : newline ∉ line)
    (rest : Bytes) : (line ++ rest).dropWhile (· = newline) = line ++ rest := by
  cases line with
  | nil => contradiction
  | cons b line =>
      have hb : b ≠ newline := fun h => hline (h ▸ List.mem_cons_self)
      simp [hb]

/-- A line is found with its newline, however long it is. -/
theorem nextLine_line (limit : Nat) (ended : Bool) {line : Bytes} (hne : line ≠ [])
    (hline : newline ∉ line) (rest : Bytes) :
    nextLine limit ended (line ++ newline :: rest) =
      (Finding.ofLine limit line, rest) := by
  unfold nextLine
  rw [dropWhile_newline hne hline]
  by_cases hfits : line.length ≤ limit
  · obtain ⟨room, hroom⟩ := Nat.exists_eq_add_of_le hfits
    have htake : (line ++ newline :: rest).take (limit + 1) =
        line ++ newline :: rest.take room := by
      rw [hroom, Nat.add_assoc, List.take_length_add_append, List.take_succ_cons]
    simp [htake, beforeNewline_line hline, Finding.ofLine, hfits]
  · have htake : (line ++ newline :: rest).take (limit + 1) =
        line.take (limit + 1) := by
      rw [List.take_append_of_le_length (by omega)]
    have hstart : newline ∉ line.take (limit + 1) :=
      fun h => hline (List.mem_of_mem_take h)
    have hlength : (line.take (limit + 1)).length = limit + 1 := by
      rw [List.length_take]
      omega
    have hdrop : (line ++ newline :: rest).drop (limit + 1) =
        line.drop (limit + 1) ++ newline :: rest := by
      rw [List.drop_append_of_le_length (by omega)]
    have hend : newline ∉ line.drop (limit + 1) :=
      fun h => hline (List.mem_of_mem_drop h)
    simp [htake, beforeNewline_tail hstart, hlength, hdrop, passOver,
      beforeNewline_line hend, Finding.ofLine, hfits]
    omega

/-- What is found where only the start of a line is left. -/
def Finding.ofTail (limit : Nat) (ended : Bool) (tail : Bytes) : Finding :=
  if ended = false then .nothingYet
  else if tail = [] then .theEnd
  else if tail.length ≤ limit then .line tail
  else .tooLong (limit + 1 + (tail.length - (limit + 1) - 1))

/-- The start of a line is used up, whatever is found. -/
theorem nextLine_tail (limit : Nat) (ended : Bool) {tail : Bytes}
    (htail : newline ∉ tail) :
    nextLine limit ended tail = (Finding.ofTail limit ended tail, []) := by
  have hstrip : tail.dropWhile (· = newline) = tail := by
    by_cases hne : tail = []
    · simp [hne]
    · simpa using dropWhile_newline hne htail []
  unfold nextLine
  rw [hstrip]
  by_cases hfits : tail.length ≤ limit
  · have htake : tail.take (limit + 1) = tail := List.take_of_length_le (by omega)
    simp only [htake, beforeNewline_tail htail, Finding.ofTail,
      if_neg (Nat.not_lt.2 hfits), if_pos hfits]
    split_ifs <;> rfl
  · have hstart : newline ∉ tail.take (limit + 1) :=
      fun h => htail (List.mem_of_mem_take h)
    have hend : newline ∉ tail.drop (limit + 1) :=
      fun h => htail (List.mem_of_mem_drop h)
    have hlength : (tail.take (limit + 1)).length = limit + 1 := by
      rw [List.length_take]
      omega
    have hne : tail ≠ [] := by
      rintro rfl
      exact hfits (Nat.zero_le limit)
    cases ended <;>
      simp [beforeNewline_tail hstart, beforeNewline_tail hend, hlength, passOver,
        Finding.ofTail, hfits, hne]

/-- A reader either takes the first whole line, or uses up the start of a line
that is all there is, whatever comes behind it later. -/
theorem nextLine_cases (limit : Nat) (ended : Bool) (bytes : Bytes) :
    (∃ line rest, nextLine limit ended bytes = (Finding.ofLine limit line, rest) ∧
      lines bytes = line :: lines rest ∧
      ∀ more, wholeLines (bytes ++ more) = line :: wholeLines (rest ++ more)) ∨
    ∃ tail, newline ∉ tail ∧ nextLine limit ended bytes =
      (Finding.ofTail limit ended tail, []) ∧
      lines bytes = lines tail ∧ ∀ more,
        wholeLines (bytes ++ more) = wholeLines (tail ++ more) := by
  induction bytes using stream_induction with
  | nil =>
      right
      exact ⟨[], List.not_mem_nil, nextLine_tail limit ended List.not_mem_nil, rfl,
        fun _ => rfl⟩
  | blank rest ih =>
      simpa only [nextLine_newline, lines_newline, List.cons_append,
        wholeLines_newline] using ih
  | tail tail _ htail =>
      right
      exact ⟨tail, htail, nextLine_tail limit ended htail, rfl, fun _ => rfl⟩
  | line line rest hne hline _ =>
      left
      refine ⟨line, rest, nextLine_line limit ended hne hline rest,
        lines_line hne hline rest, ?_⟩
      intro more
      rw [List.append_assoc, List.cons_append, wholeLines_line hne hline]

theorem ne_nil_of_nextLine {limit : Nat} {ended : Bool} {bytes line rest : Bytes}
    (h : nextLine limit ended bytes = (.line line, rest)) : line ≠ [] := by
  induction bytes using stream_induction with
  | nil =>
      rw [nextLine_tail limit ended List.not_mem_nil] at h
      cases ended <;> simp [Finding.ofTail] at h
  | blank bytes ih =>
      rw [nextLine_newline] at h
      exact ih h
  | tail tail hne htail =>
      rw [nextLine_tail limit ended htail, Finding.ofTail] at h
      split_ifs at h <;> simp_all
  | line first bytes hne hfirst _ =>
      rw [nextLine_line limit ended hne hfirst, Finding.ofLine] at h
      split_ifs at h <;> simp_all

theorem findLine_eq {limit : UInt64} (h : limit.toNat < 2 ^ 64 - 1) :
    findLine limit = nextLine limit.toNat := by
  have hne : limit + 1 ≠ 0 := by
    rw [Ne, ← UInt64.toNat_inj, UInt64.toNat_add]
    simp
    omega
  funext ended bytes
  rw [findLine, if_neg hne]

theorem findLine_of_not_lt {limit : UInt64} (h : ¬limit.toNat < 2 ^ 64 - 1)
    (ended : Bool) (bytes : Bytes) : findLine limit ended bytes =
    (.theEnd, bytes) := by
  have heq : limit + 1 = 0 := by
    have hlt := limit.toNat_lt
    rw [← UInt64.toNat_inj, UInt64.toNat_add]
    simp
    omega
  rw [findLine, if_pos heq]

/-- How many bytes the whole lines of a stream have together. -/
def wholeLength (stream : Bytes) : Nat :=
  (wholeLines stream).flatten.length

/-- The start of a line counts as soon as the line is whole. -/
theorem wholeLength_append {tail : Bytes} (htail : newline ∉ tail)
    (stream : Bytes) :
    wholeLength (tail ++ stream) =
      if newline ∈ stream then tail.length + wholeLength stream
        else wholeLength stream := by
  by_cases hmem : newline ∈ stream
  · obtain ⟨first, rest, rfl, hfirst⟩ := List.eq_append_cons_of_mem hmem
    have hboth : newline ∉ tail ++ first := by simp [htail, hfirst]
    rw [if_pos hmem, ← List.append_assoc]
    simp only [wholeLength, wholeLines_append_newline, List.flatten_append,
      flatten_lines hboth, flatten_lines hfirst, List.length_append]
    omega
  · have hboth : newline ∉ tail ++ stream := by simp [htail, hmem]
    rw [if_neg hmem, wholeLength, wholeLength, wholeLines_tail hboth,
      wholeLines_tail hmem]

inductive Pass where
  | found (finding : Finding) (after : Bytes)
  | blank (after : Bytes)

/-- A pass: reads up to the next newline, but no more than one byte above the
limit, and takes a blank line for nothing. -/
def pass (limit : Nat) (ended : Bool) (bytes : Bytes) : Pass :=
  let (line, after) := beforeNewline (bytes.take (limit + 1))
  match after with
  | _ :: _ =>
      if line = [] then .blank (bytes.drop 1)
      else .found (.line line) (bytes.drop (line.length + 1))
  | [] =>
      if limit < line.length then
        let (finding, after) := passOver ended line.length (bytes.drop line.length)
        .found finding after
      else if ended = false then .found .nothingYet []
      else if line = [] then .found .theEnd []
      else .found (.line line) []

/-- A reader that makes passes until one of them finds something. -/
inductive Reads (limit : Nat) (ended : Bool) : Bytes → Finding × Bytes → Prop where
  | found {bytes after : Bytes} {finding : Finding} :
      pass limit ended bytes = .found finding after →
        Reads limit ended bytes (finding, after)
  | blank {bytes after : Bytes} {result : Finding × Bytes} :
      pass limit ended bytes = .blank after → Reads limit ended after result →
        Reads limit ended bytes result

theorem pass_newline (limit : Nat) (ended : Bool) (bytes : Bytes) :
    pass limit ended (newline :: bytes) = .blank bytes := by
  simp [pass, beforeNewline]

/-- A pass that meets no blank line is all that is needed. -/
theorem pass_eq_found (limit : Nat) (ended : Bool) {bytes : Bytes}
    (hstart : bytes.head? ≠ some newline) :
    pass limit ended bytes =
      .found (nextLine limit ended bytes).1 (nextLine limit ended bytes).2 := by
  cases bytes with
  | nil => cases ended <;> simp [pass, nextLine, beforeNewline]
  | cons b rest =>
      have hb : b ≠ newline := by simpa using hstart
      have hline : (beforeNewline ((b :: rest).take (limit + 1))).1 ≠ [] := by
        simp [beforeNewline, hb]
      have hstrip : (b :: rest).dropWhile (· = newline) = b :: rest := by simp [hb]
      unfold pass nextLine
      simp only [hstrip, if_neg hline]
      cases (beforeNewline ((b :: rest).take (limit + 1))).2 with
      | cons _ _ => rfl
      | nil =>
          by_cases hlong : limit <
            (beforeNewline ((b :: rest).take (limit + 1))).1.length
          · simp only [if_pos hlong]
          · simp only [if_neg hlong]
            cases ended <;> rfl

/-- The passes of a reader come to an end, and the last of them finds the next
line. -/
theorem reads_nextLine (limit : Nat) (ended : Bool) (bytes : Bytes) :
    Reads limit ended bytes (nextLine limit ended bytes) := by
  induction bytes with
  | nil => exact Reads.found (pass_eq_found limit ended (by simp))
  | cons b rest ih =>
      by_cases hb : b = newline
      · subst hb
        rw [nextLine_newline]
        exact Reads.blank (pass_newline limit ended rest) ih
      · exact Reads.found (pass_eq_found limit ended (by simpa using hb))

end BoardQuery
