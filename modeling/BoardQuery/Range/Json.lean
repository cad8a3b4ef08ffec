/-
Count ranges as JSON: an object with the members `min` and `max`, of which
`max` is null or absent for a range without an upper bound.  Reading checks
the order of the bounds, so no reversed range comes in this way.
-/
import BoardQuery.Range.Basic
import BoardQuery.Json.Record

namespace BoardQuery.CountRange

def json (r : CountRange) : String :=
  let max :=
    match r.max with
    | none => "null"
    | some max => toString max
  "\x7b\"min\":" ++ toString r.min ++ ",\"max\":" ++ max ++ "\x7d"

def schema : Schema :=
  [("min", .count), ("max", .optionalCount)]

/-- The range with the given bounds, as far as they are in order. -/
def ofReadBounds (min : UInt64) (max : Option UInt64) : Except Fault CountRange :=
  match ofBounds min max with
  | .ok range => .ok range
  | .error e => .error (.refused e.message)

/-- The range that a record stands for.  The object form may leave `max` out;
the list form has to give both bounds. -/
def ofRecord (record : Record) : Except Fault CountRange :=
  match record.member? "min", record.member? "max", record.form with
  | some (.count min), some (.count max), _ => ofReadBounds min (some max)
  | some (.count _), none, .list => .error .unsuitable
  | some (.count min), _, _ => ofReadBounds min none
  | _, _, _ => .error .unsuitable

def ofJson (bytes : Bytes) : Except Fault CountRange :=
  readDocument schema ofRecord bytes

end BoardQuery.CountRange
