/-
Shapes of trees.  The shape of a tree is the class name and the number of
children at each of its positions, and the list of these in preorder says as
much.  Comparing two trees reports the first place at which their lists differ,
with the path to it.
-/
import BoardQuery.Outline
import Mathlib.Data.List.Forall2

namespace BoardQuery

namespace Outline

/-- What the shape of a tree says of a node: its class name and the number of
its children. -/
def label (t : Outline) : String × Nat :=
  (t.className, t.children.length)

def labels (t : Outline) : List (String × Nat) :=
  t.descendants.map label

/-- The node at a position, which is given by the number of a child for each
step down. -/
def follow : List Nat → Outline → Option Outline
  | [], t => some t
  | i :: position, t => t.children[i]?.bind (follow position)

/-- Whether two trees have the same positions, with the same labels there. -/
def SameShape (a b : Outline) : Prop :=
  ∀ position, (a.follow position).map label = (b.follow position).map label

mutual

/-- The nodes of a tree that stands at `path`, each before its children and with
its own path. -/
def locatedFrom (path : String) : Outline → List (String × Outline)
  | node name empty children =>
      (path, node name empty children) :: locatedEach path 0 children

/-- The nodes below the one at `path`, from child number `i` on. -/
def locatedEach (path : String) (i : Nat) : List Outline → List (String × Outline)
  | [] => []
  | t :: rest => t.locatedFrom s!"{path}/{i}:{t.className}" ++
      locatedEach path (i + 1) rest

end

/-- The nodes of a tree with their paths: the class name of the root, and for
each step down the number and the class name of the child. -/
def located (t : Outline) : List (String × Outline) :=
  t.locatedFrom t.className

/-- What is wrong with a clone of a node whose label is another one. -/
def mismatch (source clone : Outline) : String :=
  if source.className ≠ clone.className then
    s!"expected {source.className} but clone is {clone.className}"
  else s!"expected {source.children.length} children, clone has {clone.children.length}"

mutual

theorem map_snd_locatedFrom (path : String) :
    ∀ t : Outline, (t.locatedFrom path).map Prod.snd = t.descendants
  | node _ _ children => by
      rw [locatedFrom, List.map_cons, map_snd_locatedEach path 0 children,
        descendants_node]

theorem map_snd_locatedEach (path : String) :
    ∀ (i : Nat) (trees : List Outline),
      (locatedEach path i trees).map Prod.snd = trees.flatMap descendants
  | _, [] => rfl
  | i, t :: rest => by
      rw [locatedEach, List.map_append, map_snd_locatedFrom _ t,
        map_snd_locatedEach path _ rest, List.flatMap_cons]

end

/-- The place `k` is the first one at which two lists have entries that differ. -/
def FirstDifference {α : Type} (xs ys : List α) (k : Nat) : Prop :=
  xs.take k = ys.take k ∧ ∃ x y, xs[k]? = some x ∧ ys[k]? = some y ∧ x ≠ y

theorem FirstDifference.ne {α : Type} {xs ys : List α} {k : Nat}
    (h : FirstDifference xs ys k) :
    xs ≠ ys := by
  rintro rfl
  obtain ⟨_, x, y, hx, hy, hxy⟩ := h
  exact hxy (Option.some.inj (hx.symm.trans hy))

/-- What a comparison of located nodes with those of a clone may come to: all
labels agree, or the first pair of labels that do not is reported. -/
inductive Verdict (sources : List (String × Outline)) (clones : List Outline) :
    Except Error Unit → Prop
  | same (hlabels : (sources.map Prod.snd).map label = clones.map label) :
      Verdict sources clones (.ok ())
  | differs {k : Nat} {path : String} {source clone : Outline}
      (hbefore : ((sources.map Prod.snd).take k).map label =
        (clones.take k).map label)
      (hsource : sources[k]? = some (path, source))
      (hclone : clones[k]? = some clone)
      (hlabel : source.label ≠ clone.label) :
      Verdict sources clones (.error (.shapeMismatch path (mismatch source clone)))

namespace Verdict

variable {sources more : List (String × Outline)} {clones moreClones : List Outline}

theorem append {answer : Except Error Unit} (h : Verdict sources clones (.ok ()))
    (hmore : Verdict more moreClones answer) :
    Verdict (sources ++ more) (clones ++ moreClones) answer := by
  obtain ⟨hlabels⟩ := h
  have hlength : sources.length = clones.length := by
    simpa using congrArg List.length hlabels
  cases hmore with
  | same hrest => exact .same (by simp only [List.map_append, hlabels, hrest])
  | @differs k path source clone hbefore hsource hclone hlabel =>
      refine .differs (k := sources.length + k) ?_ ?_ ?_ hlabel
      · have hsnd : sources.length = (sources.map Prod.snd).length :=
          (List.length_map _).symm
        rw [List.map_append, hsnd, List.take_length_add_append, ← hsnd, hlength,
          List.take_length_add_append, List.map_append, List.map_append, hlabels,
          hbefore]
      · rw [List.getElem?_append_right (Nat.le_add_right _ _),
          Nat.add_sub_cancel_left, hsource]
      · rw [hlength, List.getElem?_append_right (Nat.le_add_right _ _),
          Nat.add_sub_cancel_left, hclone]

theorem append_of_error {e : Error} (h : Verdict sources clones (.error e)) :
    Verdict (sources ++ more) (clones ++ moreClones) (.error e) := by
  cases h with
  | @differs k path source clone hbefore hsource hclone hlabel =>
      have hk : k < sources.length := (List.getElem?_eq_some_iff.mp hsource).1
      have hkclone : k < clones.length := (List.getElem?_eq_some_iff.mp hclone).1
      refine .differs (k := k) ?_ ?_ ?_ hlabel
      · rw [List.map_append,
          List.take_append_of_le_length (by simpa using Nat.le_of_lt hk),
          List.take_append_of_le_length (Nat.le_of_lt hkclone), hbefore]
      · rw [List.getElem?_append_left hk, hsource]
      · rw [List.getElem?_append_left hkclone, hclone]

/-- The first node of either side is the one to differ. -/
theorem head {path : String} {source clone : Outline}
    (hlabel : source.label ≠ clone.label) :
    Verdict ((path, source) :: sources) (clone :: clones)
      (.error (.shapeMismatch path (mismatch source clone))) :=
  .differs (k := 0) rfl rfl rfl hlabel

theorem cons {path : String} {source clone : Outline} {answer : Except Error Unit}
    (hlabel : source.label = clone.label) (h : Verdict sources clones answer) :
    Verdict ((path, source) :: sources) (clone :: clones) answer := by
  have hfirst : Verdict [(path, source)] [clone] (.ok ()) :=
    .same (by simp [hlabel])
  exact hfirst.append h

theorem labels {answer : Except Error Unit} (h : Verdict sources clones answer) :
    let sourceLabels := (sources.map Prod.snd).map label
    let cloneLabels := clones.map label
    (answer = .ok () ∧ sourceLabels = cloneLabels) ∨
      ∃ k path source clone, FirstDifference sourceLabels cloneLabels k ∧
        sources[k]? = some (path, source) ∧ clones[k]? = some clone ∧
        answer = .error (.shapeMismatch path (mismatch source clone)) := by
  cases h with
  | same hlabels => exact .inl ⟨rfl, hlabels⟩
  | @differs k path source clone hbefore hsource hclone hlabel =>
      refine .inr ⟨k, path, source, clone,
        ⟨?_, source.label, clone.label, ?_, ?_, hlabel⟩,
        hsource, hclone, rfl⟩
      · rwa [List.map_take, List.map_take] at hbefore
      · simp [hsource]
      · simp [hclone]

end Verdict

mutual

/-- The comparison walks down both trees at once and comes to this verdict on
their lists. -/
theorem verdict_verifyAt (path : String) :
    ∀ a b : Outline, Verdict (a.locatedFrom path) b.descendants (verifyAt path a b)
  | node name empty children, node cloneName cloneEmpty cloneChildren => by
      let source := node name empty children
      let clone := node cloneName cloneEmpty cloneChildren
      rw [verifyAt, locatedFrom, descendants_node]
      by_cases hname : name = cloneName
      · rw [if_neg (not_not_intro hname)]
        by_cases hlength : children.length = cloneChildren.length
        · rw [if_neg (not_not_intro hlength)]
          have hlabel : source.label = clone.label := by
            simp [source, clone, label, className, Outline.children, hname, hlength]
          exact .cons hlabel (verdict_verifyEach path 0 children cloneChildren
            hlength)
        · rw [if_pos hlength]
          have hlabel : source.label ≠ clone.label := by
            simp [source, clone, label, Outline.children, hlength]
          simpa [source, clone, mismatch, className, Outline.children, hname] using
            Verdict.head hlabel
      · rw [if_pos hname]
        have hlabel : source.label ≠ clone.label := by
          simp [source, clone, label, className, hname]
        simpa [source, clone, mismatch, className, hname] using Verdict.head hlabel

/-- Rows of equally many children are compared pair by pair. -/
theorem verdict_verifyEach (path : String) :
    ∀ (i : Nat) (as bs : List Outline), as.length = bs.length →
      Verdict (locatedEach path i as) (bs.flatMap descendants)
        (verifyEach path i as bs)
  | _, [], [], _ => .same rfl
  | i, a :: as, b :: bs, hlength => by
      have hfirst := verdict_verifyAt s!"{path}/{i}:{a.className}" a b
      have hrest := verdict_verifyEach path (i + 1) as bs (Nat.succ.inj hlength)
      rw [verifyEach, locatedEach, List.flatMap_cons]
      cases hanswer : verifyAt s!"{path}/{i}:{a.className}" a b with
      | ok =>
          rw [hanswer] at hfirst
          exact hfirst.append hrest
      | error e =>
          rw [hanswer] at hfirst
          exact hfirst.append_of_error

end

/-- Equal positions below two nodes are those below their children. -/
theorem sameShape_node_iff {name cloneName : String} {empty cloneEmpty : Bool}
    {children cloneChildren : List Outline} :
    SameShape (node name empty children) (node cloneName cloneEmpty cloneChildren) ↔
      name = cloneName ∧ List.Forall₂ SameShape children cloneChildren := by
  constructor
  · intro h
    have hroot : name = cloneName ∧ children.length = cloneChildren.length := by
      simpa [follow, label, className, Outline.children] using h []
    refine ⟨hroot.1, List.forall₂_iff_get.mpr ⟨hroot.2, ?_⟩⟩
    intro i hi hclone position
    simpa [follow, Outline.children, hi, hclone] using h (i :: position)
  · rintro ⟨rfl, hchildren⟩ position
    obtain ⟨hlength, hall⟩ := List.forall₂_iff_get.mp hchildren
    cases position with
    | nil => simp [follow, label, className, Outline.children, hlength]
    | cons i position =>
        by_cases hi : i < children.length
        · have hclone : i < cloneChildren.length := hlength ▸ hi
          simpa [follow, Outline.children, hi, hclone] using hall i hi hclone
            position
        · have hclone : ¬ i < cloneChildren.length := hlength ▸ hi
          simp [follow, Outline.children, hi, hclone]

mutual

/-- A comparison succeeds when the trees have one shape, and only then. -/
theorem verifyAt_eq_ok_iff (path : String) :
    ∀ a b : Outline, verifyAt path a b = .ok () ↔ SameShape a b
  | node name _ children, node cloneName _ cloneChildren => by
      rw [verifyAt, sameShape_node_iff]
      by_cases hname : name = cloneName
      · by_cases hlength : children.length = cloneChildren.length
        · simp [hname, hlength,
            verifyEach_eq_ok_iff path 0 children cloneChildren hlength]
        · have hrows : ¬ List.Forall₂ SameShape children cloneChildren :=
            fun h => hlength h.length_eq
          simp [hname, hlength, hrows]
      · simp [hname]

theorem verifyEach_eq_ok_iff (path : String) :
    ∀ (i : Nat) (as bs : List Outline), as.length = bs.length →
      (verifyEach path i as bs = .ok () ↔ List.Forall₂ SameShape as bs)
  | _, [], [], _ => by simp [verifyEach]
  | i, a :: as, b :: bs, hlength => by
      have hfirst := verifyAt_eq_ok_iff s!"{path}/{i}:{a.className}" a b
      have hrest := verifyEach_eq_ok_iff path (i + 1) as bs (Nat.succ.inj hlength)
      rw [verifyEach, List.forall₂_cons, ← hfirst, ← hrest]
      cases verifyAt s!"{path}/{i}:{a.className}" a b with
      | ok => simp
      | error e => simp

end

/-- Comparing the shapes of two trees is exact.  It succeeds when the labels of
their nodes agree in preorder, which is when the trees have one shape.
Otherwise the two lists of labels have entries that differ, and the first of
them is reported, with the path to that node of the source and with what is
wrong there. -/
theorem verify_reports_first_difference (source clone : Outline) :
    (source.verify clone = .ok () ↔ source.labels = clone.labels) ∧
    (source.labels = clone.labels ↔ SameShape source clone) ∧
    (source.labels ≠ clone.labels → ∃ k path s c,
      FirstDifference source.labels clone.labels k ∧
      source.located[k]? = some (path, s) ∧ source.descendants[k]? = some s ∧
      clone.descendants[k]? = some c ∧
      source.verify clone = .error (.shapeMismatch path (mismatch s c))) := by
  have hverdict : Verdict source.located clone.descendants (source.verify clone) :=
    verdict_verifyAt source.className source clone
  have hnodes : source.located.map Prod.snd = source.descendants :=
    map_snd_locatedFrom source.className source
  have hshape := verifyAt_eq_ok_iff source.className source clone
  rcases hverdict.labels with
    ⟨hok, hlabels⟩ | ⟨k, path, s, c, hfirst, hs, hc, herror⟩
  · rw [hnodes] at hlabels
    have hsame : source.labels = clone.labels := hlabels
    exact ⟨by simp [hok, hsame], by simp [hsame, hshape.mp hok],
      fun hne => absurd hsame hne⟩
  · rw [hnodes] at hfirst
    have hne : source.labels ≠ clone.labels := hfirst.ne
    have hnok : source.verify clone ≠ .ok () := by simp [herror]
    refine ⟨by simp [hnok, hne], by simp [hne, mt hshape.mpr hnok], fun _ => ?_⟩
    refine ⟨k, path, s, c, hfirst, hs, ?_, hc, herror⟩
    rw [← hnodes, List.getElem?_map, hs]
    rfl

/-- The second child of the root is of another class, and its child is not
looked at. -/
example :
    let source :=
      node "And" false [node "A" false [], node "B" false [node "C" false []]]
    let clone :=
      node "And" false [node "A" false [], node "C" false [node "D" false []]]
    source.verify clone =
      .error (.shapeMismatch "And/1:B" "expected B but clone is C") := by
  cbv

end Outline

end BoardQuery
