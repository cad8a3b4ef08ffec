/-
Printed filters.  Composites stand on one line with their parts.  An orbit has
an entry of its own for each transform and for its base or each of its images,
one level deeper than the orbit.
-/
import BoardQuery.Filter.Basic

namespace BoardQuery

def hexNumeral (n : Nat) : String :=
  String.ofList (Nat.toDigits 16 n)

/-- The first line of an orbit. -/
def Orbit.heading (o : Orbit) : String :=
  let criterion :=
    match o.criterion with
    | none => ""
    | some criterion => s!" range: {criterion.text}"
  s!"<TransformNode ntransforms: {o.transforms.length} nfilters: {o.images.length}{criterion}"

def Orbit.transformEntries (ts : List Transform) : List Print :=
  ts.zipIdx.map fun (t, i) =>
    .entry (.andThen (.text s!"Transform {i} of {ts.length}: ") t.print)

def Orbit.imageEntries (images : List Print) : List Print :=
  images.zipIdx.map fun (image, i) =>
    .entry (.andThen (.text s!"TransformedFilter {i} of {images.length}: ") image)

/-- A composite with its parts. -/
def Filter.printComposite (name : String) (parts : List Print) : Print :=
  .inTurn [.text s!"<{name}",
    .inTurn (parts.map fun part => .andThen (.text " ") part), .text ">"]

mutual

def Filter.print : Filter → Print
  | .bit mask => .text s!"<BitFilter 0x{hexNumeral mask.toNat}>"
  | .scripted label _ current =>
      if current = 'P' then .fail
      else .text s!"<ScriptedFilter {Filter.scriptedName label current}>"
  | .probe traits _ _ =>
      if .print ∈ traits.refuses then .fail
        else .text s!"<{traits.className} {traits.label}>"
  | .all parts => Filter.printComposite "AndFilter" (Filter.printEach parts)
  | .any parts => Filter.printComposite "OrFilter" (Filter.printEach parts)
  | .orbit o => o.print

def Orbit.print : Orbit → Print
  | .deferred ts criterion base =>
      .inTurn
        [.text (Orbit.deferred ts criterion base).heading,
          .inTurn (Orbit.transformEntries ts),
          .entry (.andThen (.text "Filter: ") base.print),
          .text " TransformNode>"]
  | .expanded ts criterion images count =>
      .inTurn
        [.text (Orbit.expanded ts criterion images count).heading,
          .inTurn (Orbit.transformEntries ts),
          .inTurn (Orbit.imageEntries (Filter.printEach images)),
          .text " TransformNode>"]

def Filter.printEach : List Filter → List Print
  | [] => []
  | f :: rest => f.print :: Filter.printEach rest

end

@[simp] theorem Filter.printEach_eq_map (fs : List Filter) :
    Filter.printEach fs = fs.map Filter.print := by
  induction fs with
  | nil => rfl
  | cons f rest ih => simp [Filter.printEach, ih]

def Filter.render (f : Filter) : Except Error String :=
  f.print.render

end BoardQuery
