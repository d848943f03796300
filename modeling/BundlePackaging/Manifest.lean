import BundlePackaging.Order.SortedMap

/-!
# Manifests

The manifest of a module names its package and holds attributes, which are only carried along, and
metadata, which finishing a package may add to.

## Main definitions

* `Manifest`, `Manifest.withMetadata` — the manifests, and setting one metadata value.

## Main results

* `Manifest.metadata?_withMetadata` — the metadata values after one is set.
-/

namespace BundlePackaging

/-- The manifest of a module or of a package. -/
structure Manifest where
  /-- The name of the package. -/
  package : String
  /-- What the manifest says besides, by name. -/
  attributes : SortedMap String String := ∅
  /-- The metadata values, by key. -/
  metadata : SortedMap String String := ∅
  deriving DecidableEq, Inhabited

/-- The manifest with the metadata value `value` under `key`. -/
def Manifest.withMetadata (m : Manifest) (key value : String) : Manifest :=
  { m with metadata := m.metadata.insert key value }

/-- The metadata value under `key`. -/
def Manifest.metadata? (m : Manifest) (key : String) : Option String := m.metadata.get? key

namespace Manifest

theorem metadata?_withMetadata (m : Manifest) (key value x : String) :
    (m.withMetadata key value).metadata? x = if key = x then some value else m.metadata? x :=
  m.metadata.get?_insert key x value

/-- Setting a value that is set already changes nothing. -/
theorem withMetadata_of_metadata?_eq_some {m : Manifest} {key value : String}
    (h : m.metadata? key = some value) : m.withMetadata key value = m := by
  unfold withMetadata
  rw [SortedMap.insert_of_get?_eq_some h]

end Manifest
end BundlePackaging
