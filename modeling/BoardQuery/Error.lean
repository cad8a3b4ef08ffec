/-
The failures of the library.  Each constructor is a cause; the wording of all
of them is `Error.message`.
-/
import BoardQuery.Json.Fault

namespace BoardQuery

/-- Why the system refused an operation on a file or a stream. -/
inductive SystemFailure where
  | notFound
  | invalidInput
  | notADirectory
  | nameTooLong
  | connectionRefused
  | brokenPipe
  | wouldBlock
  | other (text : String)
deriving DecidableEq, Repr

def SystemFailure.message : SystemFailure → String
  | .notFound => "no such file or directory"
  | .invalidInput => "invalid argument"
  | .notADirectory => "not a directory"
  | .nameTooLong => "file name too long"
  | .connectionRefused => "connection refused"
  | .brokenPipe => "broken pipe"
  | .wouldBlock => "resource temporarily unavailable"
  | .other text => text

/-- The failures of the library, by cause. -/
inductive Error where
  | alreadyExpanded
  | notExpanded (operation : String)
  | cloneExpanded
  | criterionRequired
  | incompatibleTransform (filter transform : String)
  | emptyExpansion (transforms : Nat)
  | shapeMismatch (path message : String)
  | channelClosed
  | invalidMessage (reason : String)
  | messageTooLong (length limit : Nat)
  | invalidRange (input reason : String)
  | invalidConfiguration (message : String)
  | system (operation : String) (failure : SystemFailure)
  | json (fault : Fault)
  | unprintable
deriving DecidableEq, Repr

def Error.message : Error → String
  | .alreadyExpanded => "transform node already expanded"
  | .notExpanded operation => s!"transform node not expanded: {operation}"
  | .cloneExpanded => "cannot clone expanded transformnode"
  | .criterionRequired =>
      "attempt to sort or count transform that lacks a range. " ++
        "Only transforms with ranges can be sorted or counted"
  | .incompatibleTransform filter transform =>
      s!"null transform or wrong type in expand(): {filter} cannot be transformed by {transform}"
  | .emptyExpansion transforms =>
      s!"expansion of {transforms} transforms left no usable filter"
  | .shapeMismatch path message =>
      s!"clone does not match source shape at {path}: {message}"
  | .channelClosed => "message channel is closed"
  | .invalidMessage reason => s!"invalid message: {reason}"
  | .messageTooLong length limit =>
      s!"message of {length} bytes exceeds limit of {limit} bytes"
  | .invalidRange input reason => s!"invalid count range '{input}': {reason}"
  | .invalidConfiguration message => s!"invalid configuration: {message}"
  | .system operation failure => s!"failed to {operation}: {failure.message}"
  | .json fault => s!"serialization error: {fault.message}"
  | .unprintable => "formatting error while printing node tree"

/-- A failure of the system during an operation that has no better name. -/
def Error.ofSystem (failure : SystemFailure) : Error :=
  .system "IO operation" failure

end BoardQuery
