/-
Outlines of query trees.  An outline keeps of every node its class name,
whether its square mask is empty, and its children.  Listing the nodes,
looking for empty masks and comparing shapes need no more than that.
-/
import BoardQuery.Printer

namespace BoardQuery

inductive Outline where
  | node (className : String) (emptyMask : Bool) (children : List Outline)
deriving Inhabited, Repr

namespace Outline

def className : Outline → String
  | node name _ _ => name

def emptyMask : Outline → Bool
  | node _ empty _ => empty

def children : Outline → List Outline
  | node _ _ children => children

mutual

/-- The tree and all trees below it, each before its children, and then `after`. -/
def descendantsThen : Outline → List Outline → List Outline
  | node name empty children, after =>
      node name empty children :: descendantsOfEachThen children after

/-- The descendants of several trees, one tree after the other, and then `after`. -/
def descendantsOfEachThen : List Outline → List Outline → List Outline
  | [], after => after
  | t :: rest, after => t.descendantsThen (descendantsOfEachThen rest after)

end

def descendants (t : Outline) : List Outline :=
  t.descendantsThen []

mutual

theorem descendantsThen_append :
    ∀ (t : Outline) (first after : List Outline),
      t.descendantsThen (first ++ after) = t.descendantsThen first ++ after
  | node _ _ children, first, after => by
      simp [descendantsThen, descendantsOfEachThen_append children]

theorem descendantsOfEachThen_append :
    ∀ (trees first after : List Outline),
      descendantsOfEachThen trees (first ++ after) =
        descendantsOfEachThen trees first ++ after
  | [], first, after => by simp [descendantsOfEachThen]
  | t :: rest, first, after => by
      simp [descendantsOfEachThen, descendantsOfEachThen_append rest,
        descendantsThen_append t]

end

/-- What comes after the descendants does not change them. -/
theorem descendantsThen_eq (t : Outline) (after : List Outline) :
    t.descendantsThen after = t.descendants ++ after := by
  simpa [descendants] using descendantsThen_append t [] after

theorem descendantsOfEachThen_eq_flatMap (trees : List Outline) :
    descendantsOfEachThen trees [] = trees.flatMap descendants := by
  induction trees with
  | nil => rfl
  | cons t rest ih => simp [descendantsOfEachThen, descendantsThen_eq, ih]

/-- The descendants of a node are itself and the descendants of its children. -/
@[simp] theorem descendants_node (name : String) (empty : Bool)
    (children : List Outline) :
    (node name empty children).descendants =
      node name empty children :: children.flatMap descendants := by
  simp [descendants, descendantsThen, ← descendantsOfEachThen_eq_flatMap]

mutual

/-- Whether the tree holds a node with an empty square mask. -/
def hasEmptyMask : Outline → Bool
  | node _ empty children => empty || hasEmptyMaskInEach children

/-- Whether one of several trees holds a node with an empty square mask. -/
def hasEmptyMaskInEach : List Outline → Bool
  | [] => false
  | t :: rest => t.hasEmptyMask || hasEmptyMaskInEach rest

end

mutual

theorem hasEmptyMask_eq_any :
    ∀ t : Outline, t.hasEmptyMask = t.descendants.any emptyMask
  | node _ _ children => by
      simp [hasEmptyMask, emptyMask, hasEmptyMaskInEach_eq_any children]

theorem hasEmptyMaskInEach_eq_any :
    ∀ trees : List Outline,
      hasEmptyMaskInEach trees = (trees.flatMap descendants).any emptyMask
  | [] => rfl
  | t :: rest => by
      simp [hasEmptyMaskInEach, hasEmptyMask_eq_any t,
        hasEmptyMaskInEach_eq_any rest]

end

mutual

/-- Compares the shape of a clone with that of its source, which stands at
`path`.  Shapes agree when class names and numbers of children do; the first
difference from the root on is the one reported. -/
def verifyAt (path : String) : Outline → Outline → Except Error Unit
  | node name _ children, node cloneName _ cloneChildren =>
      if name ≠ cloneName then
        .error (.shapeMismatch path s!"expected {name} but clone is {cloneName}")
      else if children.length ≠ cloneChildren.length then
        .error (.shapeMismatch path
          s!"expected {children.length} children, clone has {cloneChildren.length}")
      else verifyEach path 0 children cloneChildren

/-- Compares the children of the node at `path`, from child number `i` on. -/
def verifyEach (path : String) (i : Nat) :
    List Outline → List Outline → Except Error Unit
  | child :: rest, clone :: cloneRest =>
      match verifyAt s!"{path}/{i}:{child.className}" child clone with
      | .error e => .error e
      | .ok () => verifyEach path (i + 1) rest cloneRest
  | _, _ => .ok ()

end

def verify (source clone : Outline) : Except Error Unit :=
  verifyAt source.className source clone

mutual

/-- Prints a tree of nodes that have nothing but a class and children.  A node
of the class `Unprintable` cannot be printed. -/
def print : Outline → Print
  | node name _ children =>
      if name = "Unprintable" then .fail
      else
        .inTurn
          [.text s!"<{name}", .move Printer.indent,
            .inTurn ((printEach children).map fun child =>
              .inTurn [.move Printer.newline, .move Printer.tab, child]),
            .move Printer.unindent, .text ">"]

def printEach : List Outline → List Print
  | [] => []
  | t :: rest => t.print :: printEach rest

end

end Outline

end BoardQuery
