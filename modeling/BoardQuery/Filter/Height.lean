/-
The height of a filter: how deep composites and orbits are nested in it,
counting what its leaves can become.  No transform raises it, which is why
expanding orbits inside the images of orbits comes to an end.
-/
import BoardQuery.Filter.Transform

namespace BoardQuery

mutual

/-- How deep the filter of a blueprint is nested. -/
def Blueprint.height : Blueprint → Nat
  | .bit _ => 0
  | .scripted _ _ => 0
  | .probe _ _ none => 0
  | .probe _ _ (some becomes) => becomes.height
  | .all parts => Blueprint.heightOfEach parts + 1
  | .any parts => Blueprint.heightOfEach parts + 1
  | .orbit _ _ base => base.height + 1
  | .chain depth leaf => leaf.height + depth
  | .orbitChain depth _ _ leaf => leaf.height + depth

def Blueprint.heightOfEach : List Blueprint → Nat
  | [] => 0
  | b :: rest => max b.height (Blueprint.heightOfEach rest)

end

mutual

def Filter.height : Filter → Nat
  | .bit _ => 0
  | .scripted _ _ _ => 0
  | .probe _ _ none => 0
  | .probe _ _ (some becomes) => becomes.height
  | .all parts => Filter.heightOfEach parts + 1
  | .any parts => Filter.heightOfEach parts + 1
  | .orbit o => o.height

/-- How deep an orbit is nested.  An expanded orbit is never expanded again, so
what is below it does not count. -/
def Orbit.height : Orbit → Nat
  | .deferred _ _ base => base.height + 1
  | .expanded _ _ _ _ => 0

def Filter.heightOfEach : List Filter → Nat
  | [] => 0
  | f :: rest => max f.height (Filter.heightOfEach rest)

end

theorem Filter.height_le_heightOfEach {f : Filter} {fs : List Filter} (h : f ∈ fs) :
    f.height ≤ Filter.heightOfEach fs := by
  induction fs with
  | nil => simp at h
  | cons g rest ih =>
      simp only [Filter.heightOfEach]
      rcases List.mem_cons.mp h with rfl | h
      · exact Nat.le_max_left _ _
      · exact Nat.le_trans (ih h) (Nat.le_max_right _ _)

theorem Filter.height_chained (depth : Nat) (f : Filter) :
    (f.chained depth).height = f.height + depth := by
  induction depth with
  | zero => rfl
  | succ n ih =>
      simp only [Filter.chained] at ih
      simp [Filter.chained, Nat.repeat, Filter.height, Filter.heightOfEach, ih,
        Nat.add_assoc]

theorem Filter.height_orbited (ts : List Transform) (criterion : Option Criterion)
    (depth : Nat) (f : Filter) :
    (f.orbited ts criterion depth).height = f.height + depth := by
  induction depth with
  | zero => rfl
  | succ n ih =>
      simp only [Filter.orbited] at ih
      simp [Filter.orbited, Nat.repeat, Filter.height, Orbit.height, ih,
        Nat.add_assoc]

theorem Filter.height_of_orbitedFrom {ts : List Transform}
    {source : CriterionSource} {depth : Nat} {f g : Filter}
    (h : f.orbitedFrom ts source depth = .ok g) :
    g.height = f.height + depth := by
  unfold Filter.orbitedFrom at h
  split at h
  · next hzero =>
      simp only [Except.ok.injEq] at h
      simp [← h, hzero]
  · cases hsource : source.resolve with
    | error e => simp [hsource, Except.map] at h
    | ok criterion =>
        simp only [hsource, Except.map, Except.ok.injEq] at h
        simp [← h, Filter.height_orbited]

mutual

theorem Blueprint.height_of_build :
    ∀ {b : Blueprint} {f : Filter}, b.build = .ok f → f.height = b.height
  | .bit _, f, h => by
      simp only [Blueprint.build, Except.ok.injEq] at h
      simp [← h, Filter.height, Blueprint.height]
  | .scripted _ _, f, h => by
      simp only [Blueprint.build, Except.ok.injEq] at h
      simp [← h, Filter.height, Blueprint.height]
  | .probe _ _ none, f, h => by
      simp only [Blueprint.build, Except.ok.injEq] at h
      simp [← h, Filter.height, Blueprint.height]
  | .probe _ _ (some _), f, h => by
      simp only [Blueprint.build, Except.ok.injEq] at h
      simp [← h, Filter.height, Blueprint.height]
  | .all parts, f, h => by
      simp only [Blueprint.build] at h
      cases hparts : Blueprint.buildEach parts with
      | error e => simp [hparts, Except.map] at h
      | ok fs =>
          simp only [hparts, Except.map, Except.ok.injEq] at h
          simp [← h, Filter.height, Blueprint.height,
            Blueprint.heightOfEach_of_buildEach hparts]
  | .any parts, f, h => by
      simp only [Blueprint.build] at h
      cases hparts : Blueprint.buildEach parts with
      | error e => simp [hparts, Except.map] at h
      | ok fs =>
          simp only [hparts, Except.map, Except.ok.injEq] at h
          simp [← h, Filter.height, Blueprint.height,
            Blueprint.heightOfEach_of_buildEach hparts]
  | .orbit ts source base, f, h => by
      simp only [Blueprint.build] at h
      cases hbase : base.build with
      | error e => simp [hbase] at h
      | ok g =>
          simp only [hbase, Orbit.ofSource] at h
          cases hsource : source.resolve with
          | error e => simp [hsource, Except.map] at h
          | ok criterion =>
              simp only [hsource, Except.map, Except.ok.injEq] at h
              simp [← h, Filter.height, Orbit.height, Blueprint.height,
                Blueprint.height_of_build hbase]
  | .chain depth leaf, f, h => by
      simp only [Blueprint.build] at h
      cases hleaf : leaf.build with
      | error e => simp [hleaf, Except.map] at h
      | ok g =>
          simp only [hleaf, Except.map, Except.ok.injEq] at h
          simp [← h, Filter.height_chained, Blueprint.height,
            Blueprint.height_of_build hleaf]
  | .orbitChain depth ts source leaf, f, h => by
      simp only [Blueprint.build] at h
      cases hleaf : leaf.build with
      | error e => simp [hleaf] at h
      | ok g =>
          simp only [hleaf] at h
          simp [Filter.height_of_orbitedFrom h, Blueprint.height,
            Blueprint.height_of_build hleaf]

theorem Blueprint.heightOfEach_of_buildEach :
    ∀ {bs : List Blueprint} {fs : List Filter}, Blueprint.buildEach bs = .ok fs →
      Filter.heightOfEach fs = Blueprint.heightOfEach bs
  | [], fs, h => by
      simp only [Blueprint.buildEach, Except.ok.injEq] at h
      simp [← h, Filter.heightOfEach, Blueprint.heightOfEach]
  | b :: rest, fs, h => by
      simp only [Blueprint.buildEach] at h
      cases hfirst : b.build with
      | error e => simp [hfirst] at h
      | ok f =>
          simp only [hfirst] at h
          cases hrest : Blueprint.buildEach rest with
          | error e => simp [hrest, Except.map] at h
          | ok gs =>
              simp only [hrest, Except.map, Except.ok.injEq] at h
              simp [← h, Filter.heightOfEach, Blueprint.heightOfEach,
                Blueprint.height_of_build hfirst,
                Blueprint.heightOfEach_of_buildEach hrest]

end

theorem Filter.height_of_scriptedImage {label : String} {script : List Char}
    {t : Transform} {g : Filter} (h : Filter.scriptedImage label script t = .ok g) :
    g.height = 0 := by
  unfold Filter.scriptedImage at h
  split at h
  · split at h <;> simp only [Except.ok.injEq, reduceCtorEq] at h
    simp [← h, Filter.height]
  · simp at h

theorem Filter.height_of_probeImage {traits : Traits}
    {cloneAs becomes : Option Blueprint} {t : Transform} {g : Filter}
    (h : Filter.probeImage traits cloneAs becomes t = .ok g) :
    g.height = (Filter.probe traits cloneAs becomes).height := by
  unfold Filter.probeImage at h
  split at h
  · simp at h
  · cases becomes with
    | none =>
        simp only [Except.ok.injEq] at h
        simp [← h, Filter.height]
    | some blueprint => simp [Filter.height, Blueprint.height_of_build h]

mutual

theorem Filter.height_le_of_transform (t : Transform) :
    ∀ {f g : Filter}, (f.transform t).answer = .ok g → g.height ≤ f.height
  | .bit _, g, h => by
      simp only [Filter.transform] at h
      split at h <;> simp only [Except.ok.injEq, reduceCtorEq] at h
      simp [← h, Filter.height]
  | .scripted _ _ _, g, h => by
      simp only [Filter.transform] at h
      simp [Filter.height_of_scriptedImage h]
  | .probe _ _ _, g, h => by
      simp only [Filter.transform] at h
      simp [Filter.height_of_probeImage h]
  | .all parts, g, h => by
      simp only [Filter.transform] at h
      obtain ⟨fs, hfs, rfl⟩ := Outcome.answer_map_eq_ok h
      have := Filter.heightOfEach_le_of_transformEach t hfs
      simp only [Filter.height]
      omega
  | .any parts, g, h => by
      simp only [Filter.transform] at h
      obtain ⟨fs, hfs, rfl⟩ := Outcome.answer_map_eq_ok h
      have := Filter.heightOfEach_le_of_transformEach t hfs
      simp only [Filter.height]
      omega
  | .orbit o, g, h => by
      simp only [Filter.transform] at h
      obtain ⟨o', ho', rfl⟩ := Outcome.answer_map_eq_ok h
      simpa only [Filter.height] using Orbit.height_le_of_transform t ho'

theorem Orbit.height_le_of_transform (t : Transform) :
    ∀ {o o' : Orbit}, (o.transform t).answer = .ok o' → o'.height ≤ o.height
  | .deferred _ _ base, o', h => by
      simp only [Orbit.transform] at h
      obtain ⟨g, hg, rfl⟩ := Outcome.answer_map_eq_ok h
      have := Filter.height_le_of_transform t hg
      simp only [Orbit.height]
      omega
  | .expanded _ _ _ _, o', h => by simp [Orbit.transform] at h

theorem Filter.heightOfEach_le_of_transformEach (t : Transform) :
    ∀ {fs gs : List Filter}, (Filter.transformEach t fs).answer = .ok gs →
      Filter.heightOfEach gs ≤ Filter.heightOfEach fs
  | [], gs, h => by
      simp only [Filter.transformEach, Except.ok.injEq] at h
      simp [← h]
  | f :: rest, gs, h => by
      simp only [Filter.transformEach] at h
      obtain ⟨g, more, hg, hmore, rfl⟩ := Outcome.answer_cons_eq_ok h
      have h₁ := Filter.height_le_of_transform t hg
      have h₂ := Filter.heightOfEach_le_of_transformEach t hmore
      simp only [Filter.heightOfEach]
      omega

end

end BoardQuery
