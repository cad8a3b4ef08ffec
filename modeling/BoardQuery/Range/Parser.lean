/-
Reading a count range from text.  Four forms are known, with blanks allowed at
both ends and around each bound: a numeral for exactly that count, two numerals
with blanks between them, a numeral followed by two dots, and two numerals with
two dots between them.  The first pair of dots divides a text that has one,
otherwise the first blank does.
-/
import BoardQuery.Range.Basic
import BoardQuery.Text.Blank
import BoardQuery.Text.Numeral

namespace BoardQuery

def cutAtDots : List Char → Option (List Char × List Char)
  | '.' :: '.' :: rest => some ([], rest)
  | c :: rest => (cutAtDots rest).map fun (before, after) => (c :: before, after)
  | [] => none

def cutAtBlank : List Char → Option (List Char × List Char)
  | c :: rest =>
      if isBlank c then some ([], rest)
      else (cutAtBlank rest).map fun (before, after) => (c :: before, after)
  | [] => none

namespace CountRange

/-- Reads one bound of the range that `input` is to hold. -/
def readBound (input : String) (part : List Char) : Except Error UInt64 :=
  match readNumeral (trimBlanks part) with
  | .ok n => .ok n
  | .error fault =>
      let shown := String.ofList (trimBlanks part)
      .error (.invalidRange input s!"'{shown}' is not a count: {fault.message}")

def parse (input : String) : Except Error CountRange := do
  let body := trimBlanks input.toList
  match cutAtDots body with
  | some (low, high) =>
      let min ← readBound input low
      if trimBlanks high = [] then return atLeast min
      else between min (← readBound input high)
  | none =>
      match cutAtBlank body with
      | some (low, high) =>
          let min ← readBound input low
          between min (← readBound input high)
      | none => return exactly (← readBound input body)

end CountRange

end BoardQuery
