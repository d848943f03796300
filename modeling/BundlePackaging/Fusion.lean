import BundlePackaging.BundleModule
import BundlePackaging.MergeCache
import BundlePackaging.Shard

/-!
# Fusion of a shard

The fragments of a shard are merged into one.  Entries that are not code segments are united: at
one path all modules have to provide the same content, and the first of them counts.  Code segments
are renumbered.  The targeting of the result is the union of the fragments' targetings.  Fragments
are taken in the order of their modules, those of one module in the order of the shard.

Reading comes first and may fail; only what has been read in full reaches the cache.

## Main definitions

* `ModuleOrder` — the order of modules, and the base module among them.
* `Union` — the entries of a shard as they are united.
* `ModuleOrder.gather` — everything that is read of a shard.
* `Gathered.fuse` — the merged fragment.
* `ModuleOrder.merge`, `mergeAll` — the fusion of one shard, and of several that share a cache.
-/

namespace BundlePackaging

/-! ### The order of modules -/

/-- The order in which modules are merged. -/
structure ModuleOrder where
  /-- The names of the modules, the first first. -/
  names : List String
  /-- The name of the base module, if there is one. -/
  base : Option String := none
  deriving DecidableEq, Inhabited

namespace ModuleOrder

/-- The order in which a bundle declares its modules. -/
def ofModules (modules : List BundleModule) : ModuleOrder :=
  ⟨modules.map (·.name), (modules.find? (·.isBase)).map (·.name)⟩

/-- The fault that a fragment's module is not in the order, for the first such fragment. -/
def unknown? (o : ModuleOrder) (fragments : List Fragment) : Option Fault :=
  (fragments.find? fun f => f.module ∉ o.names).map fun f => .unknownModule f.module

/-- The position of a module in the order. -/
def position (o : ModuleOrder) (module : String) : Nat := o.names.idxOf module

/-- The fragments in the order of their modules. -/
def arrange (o : ModuleOrder) (fragments : List Fragment) : List Fragment :=
  sortBy (fun f g => o.position f.module ≤ o.position g.module) fragments

end ModuleOrder

/-! ### Targeting -/

/-- The union of a targeting with those of some fragments. -/
def uniteTargetings (shard : Nat) (t : Targeting) : List Fragment → Except Fault Targeting
  | [] => .ok t
  | f :: fs =>
    match t.merge f.targeting with
    | .ok u => uniteTargetings shard u fs
    | .error c =>
      .error (.conflictingTargeting c.existing.dimension shard f.module c.existing.name
        c.incoming.name)

/-! ### Entries -/

/-- An entry with the module that contributes it. -/
structure Contribution where
  /-- The name of the module. -/
  module : String
  /-- The position of the module in the order of modules. -/
  position : Nat
  /-- The entry. -/
  entry : Entry
  deriving DecidableEq, Inhabited

/-- The entries of some fragments, in order. -/
def ModuleOrder.contributions (o : ModuleOrder) (fragments : List Fragment) : List Contribution :=
  fragments.flatMap fun f => f.entries.map fun e => ⟨f.module, o.position f.module, e⟩

/-- The entries of a shard as they are united. -/
structure Union where
  /-- The first contribution at each path, code segments apart. -/
  plain : List Contribution := []
  /-- The code segments. -/
  segments : List CodeSegment := []
  deriving DecidableEq, Inhabited

namespace Union

/-- Unite one more entry. -/
def add (shard : Nat) (u : Union) (c : Contribution) : Reading Union :=
  match c.entry.path.dexIndex? with
  | some index => do
    -- a repeated path is no conflict here: renumbering gives every segment a new one
    let digest ← c.entry.digest
    return { u with segments := u.segments ++ [⟨c.module, c.position, index, c.entry, digest⟩] }
  | none =>
    match u.plain.find? fun first => first.entry.path = c.entry.path with
    | none => return { u with plain := u.plain ++ [c] }
    | some first => do
      if ← first.entry.sameContent c.entry then return u
      throw (.conflictingEntry c.entry.path shard first.module c.module)

/-- Unite entries one by one. -/
def addAll (shard : Nat) (u : Union) : List Contribution → Reading Union
  | [] => return u
  | c :: cs => do
    let v ← u.add shard c
    v.addAll shard cs

end Union

/-! ### Fusion -/

/-- What is read of a shard. -/
structure Gathered where
  /-- The first fragment. -/
  first : Fragment
  /-- The fragments after the first, in the order of their modules. -/
  others : List Fragment
  /-- The union of the targetings. -/
  targeting : Targeting
  /-- The united entries. -/
  union : Union
  deriving DecidableEq, Inhabited

/-- Read a shard.  Of several faults the first in this order counts: no fragment, a module out of
order, different targetings, and then what the entries bring. -/
def ModuleOrder.gather (o : ModuleOrder) (shard : Shard) : Reading Gathered :=
  match o.unknown? shard.fragments with
  | some fault => throw fault
  | none =>
    match o.arrange shard.fragments with
    | [] => throw (.emptyShard shard.index)
    | first :: others => do
      let targeting ← uniteTargetings shard.index .master (first :: others)
      let union ← Union.addAll shard.index {} (o.contributions (first :: others))
      return ⟨first, others, targeting, union⟩

/-- A merged fragment, with what is reported of its making. -/
structure Merged where
  /-- The fragment. -/
  fragment : Fragment
  /-- The report. -/
  events : List Event
  deriving DecidableEq, Inhabited

namespace Gathered

/-- The fragment that names the result and gives it its manifest: the first of the base module, or
else the first of all. -/
def representative (g : Gathered) (base : Option String) : Fragment :=
  ((g.first :: g.others).find? fun f => base = some f.module).getD g.first

/-- The renumbered code segments, taken from the cache if they are there.  Without segments the
cache is not asked. -/
def segments (g : Gathered) (cache : MergeCache) : List Entry × List Event × MergeCache :=
  if g.union.segments.isEmpty then ([], [], cache)
  else
    let key := MergeKey.ofSegments g.union.segments
    match cache.getOrMerge key fun _ => renumber g.union.segments with
    | (entries, .hit, cache') => (entries, [.cacheHit key.digest], cache')
    | (entries, .miss, cache') => (entries, [.cacheMiss key.digest], cache')

/-- The merged fragment of what was read: the united entries, then the code segments. -/
def fuse (g : Gathered) (o : ModuleOrder) (shard : Shard) (cache : MergeCache) :
    Merged × MergeCache :=
  let (segments, events, cache') := g.segments cache
  let r := g.representative o.base
  let entries := g.union.plain.map (·.entry) ++ segments
  (⟨{ Fragment.ofMaster r.module r.manifest entries with targeting := g.targeting },
    events ++ [.shardMerged shard.index g.targeting (g.others.length + 1) shard.modules.length
      g.union.plain.length segments.length]⟩, cache')

end Gathered

/-- What merging works with. -/
structure Workbench where
  /-- The files and the stored digests. -/
  storage : Storage := {}
  /-- The cache of renumbered code segments. -/
  cache : MergeCache := .empty

/-- Merge the fragments of a shard into one. -/
def ModuleOrder.merge (o : ModuleOrder) (shard : Shard) (w : Workbench) :
    Except Fault Merged × Workbench :=
  match o.gather shard w.storage with
  | (.error fault, storage) => (.error fault, { w with storage })
  | (.ok g, storage) =>
    let (merged, cache) := g.fuse o shard w.cache
    (.ok merged, { storage, cache })

/-- Merge several shards, each in an order of modules of its own, one after the other. -/
def mergeAll : List (ModuleOrder × Shard) → Workbench → List (Except Fault Merged) × Workbench
  | [], w => ([], w)
  | (o, shard) :: rest, w =>
    let (answer, w') := o.merge shard w
    let (answers, w'') := mergeAll rest w'
    (answer :: answers, w'')

end BundlePackaging
