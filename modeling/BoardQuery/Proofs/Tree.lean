/-
Filter trees.  Induction over a filter reaches the parts of composites, the
base of a deferred orbit and the images of an expanded one; the list of all
nodes and the search for empty square masks follow the same shape.
-/
import BoardQuery.Filter.Basic
import Mathlib.Data.List.Basic

namespace BoardQuery

namespace Filter

section Induction

variable {motive : Filter → Prop}
  (bit : ∀ mask, motive (.bit mask))
  (scripted : ∀ label script current, motive (.scripted label script current))
  (probe : ∀ traits cloneAs becomes, motive (.probe traits cloneAs becomes))
  (all : ∀ parts, (∀ f ∈ parts, motive f) → motive (.all parts))
  (any : ∀ parts, (∀ f ∈ parts, motive f) → motive (.any parts))
  (deferred : ∀ ts criterion base, motive base →
    motive (.orbit (.deferred ts criterion base)))
  (expanded : ∀ ts criterion images count, (∀ f ∈ images, motive f) →
    motive (.orbit (.expanded ts criterion images count)))

include bit scripted probe all any deferred expanded in
theorem tree_induction (f : Filter) : motive f :=
  have hnil : ∀ f ∈ ([] : List Filter), motive f := by simp
  have hcons : ∀ (f : Filter) (rest : List Filter), motive f →
      (∀ g ∈ rest, motive g) →
        ∀ g ∈ f :: rest, motive g := by
    intro f rest hf hrest g hg
    rcases List.mem_cons.mp hg with rfl | hg
    · exact hf
    · exact hrest g hg
  @Filter.rec motive (fun o => motive (.orbit o)) (fun fs => ∀ f ∈ fs, motive f)
    bit scripted probe all any (fun _ ho => ho) deferred expanded hnil hcons f

end Induction

/-- Whether the filter is a leaf, which looks at the board itself. -/
def isLeaf : Filter → Bool
  | bit _ => true
  | scripted _ _ _ => true
  | probe _ _ _ => true
  | _ => false

mutual

/-- The filter and all filters in its tree, each before those below it. -/
def nodes : Filter → List Filter
  | all parts => all parts :: nodesOfEach parts
  | any parts => any parts :: nodesOfEach parts
  | orbit (.deferred ts criterion base) =>
      orbit (.deferred ts criterion base) :: base.nodes
  | orbit (.expanded ts criterion images count) =>
      orbit (.expanded ts criterion images count) :: nodesOfEach images
  | leaf => [leaf]

def nodesOfEach : List Filter → List Filter
  | [] => []
  | f :: rest => f.nodes ++ nodesOfEach rest

end

theorem nodesOfEach_eq_flatMap (fs : List Filter) :
    nodesOfEach fs = fs.flatMap nodes := by
  induction fs with
  | nil => rfl
  | cons f rest ih =>
      rw [List.flatMap_cons, ← ih]
      rfl

@[simp] theorem nodes_bit (mask : UInt32) : (bit mask).nodes = [bit mask] := rfl

@[simp] theorem nodes_scripted (label : String) (script : List Char)
    (current : Char) :
    (scripted label script current).nodes = [scripted label script current] := rfl

@[simp] theorem nodes_probe (traits : Traits) (cloneAs becomes : Option Blueprint) :
    (probe traits cloneAs becomes).nodes = [probe traits cloneAs becomes] := rfl

@[simp] theorem nodes_all (parts : List Filter) :
    (all parts).nodes = all parts :: parts.flatMap nodes :=
  congrArg (all parts :: ·) (nodesOfEach_eq_flatMap parts)

@[simp] theorem nodes_any (parts : List Filter) :
    (any parts).nodes = any parts :: parts.flatMap nodes :=
  congrArg (any parts :: ·) (nodesOfEach_eq_flatMap parts)

@[simp] theorem nodes_deferred (ts : List Transform) (criterion : Option Criterion)
    (base : Filter) : (orbit (.deferred ts criterion base)).nodes =
      orbit (.deferred ts criterion base) :: base.nodes := rfl

@[simp] theorem nodes_expanded (ts : List Transform) (criterion : Option Criterion)
    (images : List Filter) (count : Nat) :
    (orbit (.expanded ts criterion images count)).nodes =
      orbit (.expanded ts criterion images count) :: images.flatMap nodes :=
  congrArg (orbit (.expanded ts criterion images count) :: ·)
    (nodesOfEach_eq_flatMap images)

theorem mem_nodes_self (f : Filter) : f ∈ f.nodes := by
  cases f with
  | orbit o => cases o <;> simp
  | _ => simp

section Nodes

variable {P : Filter → Prop}

theorem forall_mem_nodes_all {parts : List Filter} :
    (∀ g ∈ (all parts).nodes, P g) ↔ P (all parts) ∧ ∀ f ∈ parts, ∀ g ∈ f.nodes,
      P g := by
  rw [nodes_all, List.forall_mem_cons, List.forall_mem_flatMap]

theorem forall_mem_nodes_any {parts : List Filter} :
    (∀ g ∈ (any parts).nodes, P g) ↔ P (any parts) ∧ ∀ f ∈ parts, ∀ g ∈ f.nodes,
      P g := by
  rw [nodes_any, List.forall_mem_cons, List.forall_mem_flatMap]

theorem forall_mem_nodes_deferred {ts : List Transform}
    {criterion : Option Criterion} {base : Filter} :
    (∀ g ∈ (orbit (.deferred ts criterion base)).nodes, P g) ↔
      P (orbit (.deferred ts criterion base)) ∧ ∀ g ∈ base.nodes, P g := by
  rw [nodes_deferred, List.forall_mem_cons]

theorem forall_mem_nodes_expanded {ts : List Transform}
    {criterion : Option Criterion} {images : List Filter} {count : Nat} :
    (∀ g ∈ (orbit (.expanded ts criterion images count)).nodes, P g) ↔
      P (orbit (.expanded ts criterion images count)) ∧ ∀ f ∈ images, ∀ g ∈ f.nodes,
        P g := by
  rw [nodes_expanded, List.forall_mem_cons, List.forall_mem_flatMap]

end Nodes

/-- The nodes of a tree stand in the order in which its outline lists them. -/
theorem map_outline_nodes (f : Filter) :
    f.nodes.map outline = f.outline.descendants := by
  have heach : ∀ fs : List Filter,
      (∀ f ∈ fs, f.nodes.map outline = f.outline.descendants) →
        (fs.flatMap nodes).map outline =
          (fs.map outline).flatMap Outline.descendants := by
    intro fs ih
    rw [List.map_flatMap, List.flatMap_map]
    exact List.flatMap_congr ih
  induction f using tree_induction with
  | bit mask => simp [outline]
  | scripted label script current => simp [outline]
  | probe traits cloneAs becomes => simp [outline]
  | all parts ih => simp [outline, heach parts ih]
  | any parts ih => simp [outline, heach parts ih]
  | deferred ts criterion base ih => simp [outline, ih]
  | expanded ts criterion images count ih => simp [outline, heach images ih]

@[simp] theorem isDegenerate_bit (mask : UInt32) :
    (bit mask).isDegenerate = (mask == 0) :=
  Bool.or_false _

@[simp] theorem isDegenerate_scripted (label : String) (script : List Char)
    (current : Char) :
    (scripted label script current).isDegenerate = (current == 'D') :=
  Bool.or_false _

@[simp] theorem isDegenerate_probe (traits : Traits)
    (cloneAs becomes : Option Blueprint) :
    (probe traits cloneAs becomes).isDegenerate = traits.emptyMask :=
  Bool.or_false _

theorem hasEmptyMaskInEach_outlines (fs : List Filter) :
    Outline.hasEmptyMaskInEach (outlineEach fs) = fs.any isDegenerate := by
  induction fs with
  | nil => rfl
  | cons f rest ih =>
      rw [List.any_cons, ← ih]
      rfl

@[simp] theorem isDegenerate_all (parts : List Filter) :
    (all parts).isDegenerate = parts.any isDegenerate :=
  hasEmptyMaskInEach_outlines parts

@[simp] theorem isDegenerate_any (parts : List Filter) :
    (any parts).isDegenerate = parts.any isDegenerate :=
  hasEmptyMaskInEach_outlines parts

@[simp] theorem isDegenerate_deferred (ts : List Transform)
    (criterion : Option Criterion) (base : Filter) :
    (orbit (.deferred ts criterion base)).isDegenerate = base.isDegenerate :=
  Bool.or_false _

@[simp] theorem isDegenerate_expanded (ts : List Transform)
    (criterion : Option Criterion) (images : List Filter) (count : Nat) :
    (orbit (.expanded ts criterion images count)).isDegenerate =
      images.any isDegenerate :=
  hasEmptyMaskInEach_outlines images

end Filter

end BoardQuery
