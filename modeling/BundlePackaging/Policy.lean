import BundlePackaging.BundleModule

/-!
# Policies

A policy holds the choices that a generation run follows.  It is made once and only read afterwards.

## Main definitions

* `Policy` — the policies.
* `Policy.standaloneDimensions` — the dimensions along which packages are told apart.
* `Policy.pins` — whether a resource has to be in the master fragment of its module.
-/

namespace BundlePackaging

/-- What is done with directory suffixes along one dimension.  When they are stripped, one variant
is chosen for all packages: the one whose suffix is the default, or, without a default, the files
that have no suffix. -/
structure SuffixPolicy where
  /-- Whether suffixes are stripped. -/
  enabled : Bool := false
  /-- The suffix value of the chosen variant. -/
  defaultSuffix : Option String := none
  deriving DecidableEq, Repr, Inhabited

/-- The choices for a generation run. -/
structure Policy where
  /-- The dimensions along which bundles are optimised. -/
  dimensions : SortedSet Dimension := ∅
  /-- Whether devices may load native libraries straight from the package. -/
  splitNativeLibraryCompression : Bool := false
  /-- Whether devices may load code segments straight from the package. -/
  splitDexCompression : Bool := false
  /-- Whether the application may be moved to external storage. -/
  installableOnExternalStorage : Bool := false
  /-- The architectures for which a base module without native libraries gets an empty one. -/
  placeholderAbis : SortedSet Abi := ∅
  /-- The numbers of resources that stay in the master fragment. -/
  pinnedIds : SortedSet ResourceId := ∅
  /-- The names of resources that stay in the master fragment. -/
  pinnedNames : SortedSet String := ∅
  /-- The resources that the base manifest needs, which stay in the base module's master. -/
  baseReachable : SortedSet ResourceId := ∅
  /-- What is done with directory suffixes, by dimension. -/
  suffixPolicies : SortedMap Dimension SuffixPolicy := ∅
  /-- Whether the third signature scheme is limited to later system versions. -/
  restrictV3Signing : Bool := false
  deriving DecidableEq, Inhabited

namespace Policy

/-- The dimensions along which packages are told apart. -/
def standaloneDimensions (p : Policy) : SortedSet Dimension :=
  p.dimensions.filter Dimension.isStandaloneAxis

/-- What is done with directory suffixes along a dimension. -/
def suffixPolicy? (p : Policy) (d : Dimension) : Option SuffixPolicy := p.suffixPolicies.get? d

/-- Whether directory suffixes along a dimension are stripped. -/
def stripsSuffix (p : Policy) (d : Dimension) : Bool := (p.suffixPolicy? d).any (·.enabled)

/-- Whether native libraries are stored uncompressed.  They stay compressed in an application that
may be moved to external storage. -/
def uncompressesNativeLibraries (p : Policy) : Bool :=
  p.splitNativeLibraryCompression && !p.installableOnExternalStorage

/-- Whether code segments are stored uncompressed. -/
def uncompressesDex (p : Policy) : Bool := p.splitDexCompression

/-- Whether a resource has to be in the master fragment of its module. -/
def pins (p : Policy) (r : ResourceRef) (inBase : Bool) : Bool :=
  r.id ∈ p.pinnedIds || r.name ∈ p.pinnedNames || (inBase && r.id ∈ p.baseReachable)

end Policy
end BundlePackaging
