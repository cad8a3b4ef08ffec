/-
What can be wrong with a JSON text.  The text is read from left to right and
the first problem decides.
-/

namespace BoardQuery

/-- Why a JSON text was refused: it ends too early, it is no JSON, it is of
another type than the wanted one or breaks a rule of that type, or it could not
be had. -/
inductive Fault where
  | truncated
  | malformed
  | unsuitable
  | refused (reason : String)
  | unreadable
deriving DecidableEq, Repr

def Fault.message : Fault → String
  | .truncated => "unexpected end of text"
  | .malformed => "malformed text"
  | .unsuitable => "unsuitable value"
  | .refused reason => reason
  | .unreadable => "text cannot be read"

end BoardQuery
