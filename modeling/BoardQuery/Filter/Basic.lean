/-
Filters.  A filter is a question about a board.  Leaves look at the board
themselves; `all` and `any` join the answers of their parts; an orbit asks a
base filter under each of several transforms.  An orbit starts out deferred,
with its base; expanding it replaces the base by the images that can match, of
which a criterion may count those that do.
-/
import BoardQuery.Filter.Blueprint
import BoardQuery.Outline

namespace BoardQuery

mutual

/-- A question about a board: whether a square of a mask is occupied, what a
leaf says by its script or its traits, whether all parts match or some, or
whether a base matches under some transforms. -/
inductive Filter where
  | bit (mask : UInt32)
  | scripted (label : String) (script : List Char) (current : Char)
  | probe (traits : Traits) (cloneAs becomes : Option Blueprint)
  | all (parts : List Filter)
  | any (parts : List Filter)
  | orbit (o : Orbit)

/-- A filter under several transforms: its base or, after expansion, the images
with the number of those that the last test saw matching. -/
inductive Orbit where
  | deferred (transforms : List Transform) (criterion : Option Criterion)
      (base : Filter)
  | expanded (transforms : List Transform) (criterion : Option Criterion)
      (images : List Filter) (lastCount : Nat)

end

namespace Orbit

def transforms : Orbit → List Transform
  | deferred ts _ _ => ts
  | expanded ts _ _ _ => ts

/-- The condition on the number of images that match, if there is one. -/
def criterion : Orbit → Option Criterion
  | deferred _ c _ => c
  | expanded _ c _ _ => c

def isExpanded : Orbit → Bool
  | deferred _ _ _ => false
  | expanded _ _ _ _ => true

def base? : Orbit → Option Filter
  | deferred _ _ base => some base
  | expanded _ _ _ _ => none

def images : Orbit → List Filter
  | deferred _ _ _ => []
  | expanded _ _ images _ => images

/-- The number of images that the last test saw matching. -/
def lastCount : Orbit → Nat
  | deferred _ _ _ => 0
  | expanded _ _ _ count => count

end Orbit

namespace Filter

def className : Filter → String
  | bit _ => "BitFilter"
  | scripted _ _ _ => "ScriptedFilter"
  | probe traits _ _ => traits.className
  | all _ => "AndFilter"
  | any _ => "OrFilter"
  | orbit _ => "TransformNode"

/-- Whether the square mask of this filter by itself is empty. -/
def emptyMask : Filter → Bool
  | bit mask => mask == 0
  | scripted _ _ current => current == 'D'
  | probe traits _ _ => traits.emptyMask
  | _ => false

/-- The name under which a scripted leaf appears in a journal. -/
def scriptedName (label : String) (current : Char) : String :=
  s!"{label}:{current}"

mutual

/-- The outline of a filter. -/
def outline : Filter → Outline
  | all parts => .node (className (all parts)) false (outlineEach parts)
  | any parts => .node (className (any parts)) false (outlineEach parts)
  | orbit (.deferred _ _ base) => .node "TransformNode" false [base.outline]
  | orbit (.expanded _ _ images _) =>
      .node "TransformNode" false (outlineEach images)
  | leaf => .node leaf.className leaf.emptyMask []

def outlineEach : List Filter → List Outline
  | [] => []
  | f :: rest => f.outline :: outlineEach rest

end

@[simp] theorem outlineEach_eq_map (fs : List Filter) :
    outlineEach fs = fs.map outline := by
  induction fs with
  | nil => rfl
  | cons f rest ih => simp [outlineEach, ih]

/-- Whether the filter or one below it has an empty square mask.  Such a filter
is left out when an orbit is expanded. -/
def isDegenerate (f : Filter) : Bool :=
  f.outline.hasEmptyMask

end Filter

def Orbit.outline (o : Orbit) : Outline :=
  (Filter.orbit o).outline

end BoardQuery
