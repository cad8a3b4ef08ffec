/-
Building filters from blueprints.  Parts are built from left to right and the
base of an orbit before its criterion; the first failure is the one reported.
Every orbit starts out deferred.
-/
import BoardQuery.Filter.Basic

namespace BoardQuery

/-- The orbit of a filter, with a criterion that may have to be read first. -/
def Orbit.ofSource (transforms : List Transform) (source : CriterionSource)
    (base : Filter) :
    Except Error Orbit :=
  source.resolve.map fun criterion => .deferred transforms criterion base

/-- A filter inside of `depth` conjunctions of one part. -/
def Filter.chained (depth : Nat) (f : Filter) : Filter :=
  Nat.repeat (fun f => .all [f]) depth f

/-- A filter inside of `depth` deferred orbits that are alike. -/
def Filter.orbited (transforms : List Transform) (criterion : Option Criterion)
    (depth : Nat) (f : Filter) : Filter :=
  Nat.repeat (fun f => .orbit (.deferred transforms criterion f)) depth f

/-- A filter inside of `depth` orbits, with a criterion that may have to be read
first. Nothing is read for a depth of zero. -/
def Filter.orbitedFrom (transforms : List Transform) (source : CriterionSource)
    (depth : Nat) (f : Filter) : Except Error Filter :=
  if depth = 0 then .ok f
  else source.resolve.map fun criterion => f.orbited transforms criterion depth

namespace Blueprint

mutual

def build : Blueprint → Except Error Filter
  | bit mask => .ok (.bit mask)
  | scripted label script => .ok (.scripted label script '-')
  | probe traits cloneAs becomes => .ok (.probe traits cloneAs becomes)
  | all parts => (buildEach parts).map .all
  | any parts => (buildEach parts).map .any
  | orbit transforms source base =>
      match base.build with
      | .error e => .error e
      | .ok base => (Orbit.ofSource transforms source base).map .orbit
  | chain depth leaf => leaf.build.map (Filter.chained depth)
  | orbitChain depth transforms source leaf =>
      match leaf.build with
      | .error e => .error e
      | .ok leaf => leaf.orbitedFrom transforms source depth

def buildEach : List Blueprint → Except Error (List Filter)
  | [] => .ok []
  | b :: rest =>
      match b.build with
      | .error e => .error e
      | .ok f => (buildEach rest).map (f :: ·)

end

end Blueprint

end BoardQuery
