import BundlePackaging.Fragment
import BundlePackaging.VariantSelection

/-!
# Partition of a module

A module is cut into fragments along a set of dimensions.  Each entry that variant selection leaves
goes to one fragment: to the master fragment if its resource is pinned or if it has no value along
any of the dimensions, otherwise to the fragment of its value along the first of the dimensions
along which it has one.

## Main definitions

* `Policy.placeholders` — the empty native libraries that a module gets.
* `Policy.selected` — the entries that are distributed.
* `Destination`, `Policy.destination` — where an entry goes.
* `Policy.partition` — the fragments of a module, the master fragment first and the others in the
  order of their values.
* `Policy.partitionEvents` — what is reported of it.
-/

namespace BundlePackaging

/-! ### The entries to distribute -/

/-- The path of the empty native library for an architecture. -/
def placeholderPath (a : Abi) : EntryPath := .ofText ("lib/" ++ a.name ++ "/libplaceholder.so")

/-- The empty native library for an architecture. -/
def placeholder (a : Abi) : Candidate :=
  ⟨⟨placeholderPath a, .empty, .compressed⟩, .ofValue (.abi a)⟩

/-- The entries of a module with the devices they are for. -/
def BundleModule.candidates (m : BundleModule) : List Candidate :=
  m.slots.map fun s => ⟨s.entry, (s.config.map (·.targeting)).getD .master⟩

namespace Policy

/-- Whether a module gets empty native libraries: only the base module does, only along the
architectures, and only if it has no native library of its own. -/
def addsPlaceholders (p : Policy) (m : BundleModule) (dims : SortedSet Dimension) : Bool :=
  m.isBase && .abi ∈ dims && !p.placeholderAbis.isEmpty && !m.hasNativeLibraries

/-- The empty native libraries that a module gets. -/
def placeholders (p : Policy) (m : BundleModule) (dims : SortedSet Dimension) : List Candidate :=
  if p.addsPlaceholders m dims then p.placeholderAbis.toList.map placeholder else []

/-- The entries among which variants are chosen. -/
def offered (p : Policy) (m : BundleModule) (dims : SortedSet Dimension) : List Candidate :=
  m.candidates ++ p.placeholders m dims

/-- The entries that are distributed over the fragments. -/
def selected (p : Policy) (m : BundleModule) (dims : SortedSet Dimension) : List Candidate :=
  selectVariants p.variantChoices (p.offered m dims)

/-! ### Distribution -/

/-- An entry with the compression that the policy asks for. -/
def compress (p : Policy) (e : Entry) : Entry :=
  if (e.path.isNativeLibrary && p.uncompressesNativeLibraries) ||
      (e.path.isDex && p.uncompressesDex) then
    { e with compression := .uncompressed }
  else e

end Policy

/-- Where an entry goes. -/
inductive Destination where
  /-- To the master fragment, because its resource is pinned. -/
  | pinned
  /-- To the master fragment, because it has no value along the dimensions. -/
  | untargeted
  /-- To the fragment of a value. -/
  | value (v : Value)
  deriving DecidableEq

/-- The value to whose fragment an entry goes, if it does not go to the master fragment. -/
def Destination.value? : Destination → Option Value
  | value v => some v
  | pinned | untargeted => none

namespace Policy

/-- Whether the resource that a module's configuration gives for a path is pinned. -/
def pinsPath (p : Policy) (m : BundleModule) (path : EntryPath) : Bool :=
  ((m.config? path).bind (·.resource)).any fun r => p.pins r m.isBase

/-- Where an entry goes. -/
def destination (p : Policy) (m : BundleModule) (dims : SortedSet Dimension) (c : Candidate) :
    Destination :=
  if p.pinsPath m c.entry.path then .pinned
  else
    match dims.toList.findSome? c.targeting.get? with
    | some v => .value v
    | none => .untargeted

/-- The entries that are distributed, each with its compression and with where it goes. -/
def placements (p : Policy) (m : BundleModule) (dims : SortedSet Dimension) :
    List (Entry × Destination) :=
  (p.selected m dims).map fun c => (p.compress c.entry, p.destination m dims c)

/-- The values that some entry goes to. -/
def occurringValues (placements : List (Entry × Destination)) : SortedSet Value :=
  .ofList (placements.filterMap (·.2.value?))

/-- The entries that go to the fragment of a value, or to the master fragment. -/
def entriesAt (placements : List (Entry × Destination)) (v : Option Value) : List Entry :=
  (placements.filter fun e => e.2.value? = v).map (·.1)

/-- The fragments of a module. -/
def partition (p : Policy) (m : BundleModule) (dims : SortedSet Dimension) : List Fragment :=
  let placements := p.placements m dims
  .ofMaster m.name m.manifest (entriesAt placements none) ::
    (occurringValues placements).toList.map fun v =>
      .ofValue m.name m.manifest v (entriesAt placements (some v))

/-! ### Report -/

/-- What is reported when the empty native libraries are added. -/
def placeholderEvents (p : Policy) (m : BundleModule) (dims : SortedSet Dimension) : List Event :=
  if p.addsPlaceholders m dims then [.placeholdersAdded p.placeholderAbis.size m.name] else []

/-- What is reported of an entry's destination. -/
def placementEvent? (module : String) (placement : Entry × Destination) : Option Event :=
  match placement.2 with
  | .pinned => some (.entryPinned module placement.1.path)
  | .untargeted => none
  | .value v => some (.entryAssigned module placement.1.path v)

/-- What is reported of the partition of a module. -/
def partitionEvents (p : Policy) (m : BundleModule) (dims : SortedSet Dimension) : List Event :=
  let placements := p.placements m dims
  p.placeholderEvents m dims ++
    selectionEvents m.name p.variantChoices (p.offered m dims) ++
    placements.filterMap (placementEvent? m.name) ++
    [.moduleSplit m.name ((occurringValues placements).size + 1)
      (entriesAt placements none).length]

end Policy
end BundlePackaging
