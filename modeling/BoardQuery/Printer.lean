/-
Printing with indentation.  A printer holds the text written so far and a
depth; a tab writes two blanks for each level of depth.  What is printed may
fail midway, and then the printer stays as the failure left it.
-/
import BoardQuery.Error

namespace BoardQuery

/-- A text under construction, with the depth of its indentation. -/
structure Printer where
  out : String := ""
  depth : Nat := 0
deriving DecidableEq, Repr

namespace Printer

def write (p : Printer) (text : String) : Printer :=
  { p with out := p.out ++ text }

def indent (p : Printer) : Printer :=
  { p with depth := p.depth + 1 }

/-- The printer one level up.  Level zero is the top. -/
def unindent (p : Printer) : Printer :=
  { p with depth := p.depth - 1 }

/-- The deepest level whose blanks a printer can write, of which there are at most
65535. -/
def maxDepth : Nat := 32767

/-- The printer after the blanks that the depth calls for, which is no deeper than
`maxDepth`. -/
def tab (p : Printer) : Printer :=
  p.write (String.ofList (List.replicate (2 * p.depth) ' '))

def newline (p : Printer) : Printer :=
  p.write "\n"

end Printer

/-- The printer after something was printed, and whether it was printed to the
end. -/
structure Printed where
  printer : Printer
  complete : Bool := true
deriving DecidableEq, Repr

abbrev Print := Printer → Printed

namespace Print

def text (s : String) : Print :=
  fun p => { printer := p.write s }

def move (f : Printer → Printer) : Print :=
  fun p => { printer := f p }

def fail : Print :=
  fun p => { printer := p, complete := false }

/-- Prints one thing and then another, unless the first one fails. -/
def andThen (first second : Print) : Print :=
  fun p =>
    let r := first p
    if r.complete then second r.printer else r

/-- Prints things in turn, up to the first one that fails. -/
def inTurn : List Print → Print
  | [] => fun p => { printer := p }
  | a :: rest => a.andThen (inTurn rest)

/-- Prints an entry on a line of its own, one level deeper.  The level is
taken back even when the entry fails. -/
def entry (body : Print) : Print :=
  fun p =>
    let r := body p.newline.indent.tab
    { r with printer := r.printer.unindent }

/-- The text of a print from the start of a line. -/
def render (a : Print) : Except Error String :=
  let r := a {}
  if r.complete then .ok r.printer.out else .error .unprintable

end Print

end BoardQuery
