import BundlePackaging.Event
import BundlePackaging.Fault
import BundlePackaging.Fragment
import BundlePackaging.Order.Firsts

/-!
# Shards

A shard is the group of fragments that make up one package.  The values that fragments have along
each sharded dimension form an axis; every choice of one value from each axis is a point, and the
shard of a point consists of the master fragments and of the fragments all of whose values occur in
the point.

## Main definitions

* `observedAxes`, `points` — the axes, and the points in lexicographic order.
* `Shard`, `shardAt` — the shard of a point.
* `shards` — the shards of a list of fragments, unless the fragments cannot be sharded.
* `shardingEvents` — what is reported of it.

## Main results

* `mem_points_cons` — a point chooses a value from the first axis and a point of the others.
-/

namespace BundlePackaging

/-- The fragments that make up one package. -/
structure Shard where
  /-- The position among the shards. -/
  index : Nat
  /-- The value along each axis. -/
  point : List Value
  /-- The fragments, in the order they came in. -/
  fragments : List Fragment
  deriving DecidableEq, Inhabited

/-! ### Points -/

/-- The fragments that are not for every device. -/
def targetedFragments (fragments : List Fragment) : List Fragment :=
  fragments.filter fun f => !f.master

/-- The first fragment with a value along a dimension that is not sharded on. -/
def unsharded? (dims : SortedSet Dimension) (fragments : List Fragment) : Option Fault :=
  (targetedFragments fragments).findSome? fun f =>
    (f.targeting.values.find? fun v => v.dimension ∉ dims).map fun v =>
      .unshardedDimension f.module v.dimension

/-- The values of the fragments along a dimension. -/
def axis (fragments : List Fragment) (d : Dimension) : SortedSet Value :=
  .ofList ((targetedFragments fragments).filterMap (·.targeting.get? d))

/-- The values of the fragments along each sharded dimension along which there are any. -/
def observedAxes (dims : SortedSet Dimension) (fragments : List Fragment) : List (List Value) :=
  (dims.toList.map fun d => (axis fragments d).toList).filter fun values => !values.isEmpty

/-- Every choice of one member of each list, in lexicographic order. -/
def points {α : Type} : List (List α) → List (List α)
  | [] => [[]]
  | axis :: axes => axis.flatMap fun v => (points axes).map (v :: ·)

theorem mem_points_cons {α : Type} {p : List α} {axis : List α} {axes : List (List α)} :
    p ∈ points (axis :: axes) ↔ ∃ v ∈ axis, ∃ q ∈ points axes, p = v :: q := by
  simp only [points, List.mem_flatMap, List.mem_map, eq_comm]

/-! ### Groups -/

/-- Whether a fragment belongs to the shard of a point. -/
def Fragment.appliesTo (f : Fragment) (point : List Value) : Bool :=
  f.master || f.targeting.values.all (· ∈ point)

/-- The shard of a point. -/
def shardAt (fragments : List Fragment) (index : Nat) (point : List Value) : Shard :=
  ⟨index, point, fragments.filter (·.appliesTo point)⟩

/-- The shards of the points, whether or not a package can be made of each. -/
def candidateShards (dims : SortedSet Dimension) (fragments : List Fragment) : List Shard :=
  (points (observedAxes dims fragments)).zipIdx.map fun e => shardAt fragments e.2 e.1

/-- The first dimension along which a fragment has a value. -/
def Fragment.axis? (f : Fragment) : Option Dimension := f.targeting.values.head?.map (·.dimension)

namespace Shard

/-- The names of the modules of a shard, in order of their first fragments. -/
def modules (s : Shard) : List String := firstsBy id (s.fragments.map (·.module))

/-- The places that the members of a shard have in the list of all fragments. -/
def positionsIn (s : Shard) (fragments : List Fragment) : List Nat :=
  (fragments.zipIdx.filter fun e => e.1.appliesTo s.point).map (·.2)

/-- The first fragment of a module that has an earlier one for the same axis. -/
def duplicate? (s : Shard) : Option Fault :=
  (firstRepeated? (fun f : Fragment => (f.module, f.axis?)) [] s.fragments).map fun f =>
    .duplicateFragment f.module f.axis? s.index

end Shard

/-- The shards of a list of fragments; without fragments there are none. -/
def shards (dims : SortedSet Dimension) (fragments : List Fragment) : Except Fault (List Shard) :=
  if fragments.isEmpty then .ok []
  else
    match unsharded? dims fragments with
    | some fault => .error fault
    | none =>
      let shards := candidateShards dims fragments
      match shards.findSome? Shard.duplicate? with
      | some fault => .error fault
      | none => .ok shards

/-! ### Report -/

/-- What is reported of grouping fragments into shards. -/
def shardingEvents (dims : SortedSet Dimension) (fragments : List Fragment) : List Event :=
  if fragments.isEmpty || (unsharded? dims fragments).isSome then []
  else
    let axes := observedAxes dims fragments
    .shardingStarted fragments.length axes.length (points axes).length ::
      match shards dims fragments with
      | .ok shards => [.fragmentsGrouped fragments.length shards.length dims]
      | .error _ => []

end BundlePackaging
