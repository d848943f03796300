import BundlePackaging.Device.Targeting
import BundlePackaging.Entry
import BundlePackaging.Manifest

/-!
# Modules

A module is a named part of a bundle: a list of entries with distinct paths, each of which may have
a configuration that says which devices the entry is for and which resource it is the file of.

Entries are placed one by one.  Placing at a path that is taken replaces the entry there, in its
position; it replaces the configuration only if the new entry brings one.

## Main definitions

* `BundleModule` — the modules.
* `placeSlot`, `BundleModule.place` — placing an entry.
* `BundleModule.ofPlacements` — the module that a sequence of placements builds.
* `BundleModule.config?` — the configuration at a path.

## Main results

* `map_path_placeSlot`, `nodup_placeSlot` — placing keeps the paths in their order and distinct.
-/

namespace BundlePackaging

open Std

/-- The number of a compiled resource. -/
structure ResourceId where
  /-- The number. -/
  value : UInt32
  deriving DecidableEq, Repr, Inhabited

namespace ResourceId

/-- The text of a resource number: eight hexadecimal digits. -/
def describe (r : ResourceId) : String := "0x" ++ Hex.padded 8 r.value.toNat

theorem eq_of_value_eq {r s : ResourceId} (h : r.value = s.value) : r = s := by
  cases r; cases s; cases h; rfl

instance : Ord ResourceId := ⟨compareOn value⟩

instance : TransOrd ResourceId := inferInstanceAs (TransCmp (compareOn value))

instance : LawfulEqOrd ResourceId where
  eq_of_compare h := eq_of_value_eq (LawfulEqOrd.eq_of_compare (show compare _ _ = .eq from h))

end ResourceId

/-- A resource that an entry is the file of. -/
structure ResourceRef where
  /-- The number of the resource. -/
  id : ResourceId
  /-- The name of the resource. -/
  name : String
  deriving DecidableEq, Inhabited

/-- What is known of an entry besides its file. -/
structure EntryConfig where
  /-- The devices that the entry is for. -/
  targeting : Targeting := .master
  /-- The resource that the entry is the file of. -/
  resource : Option ResourceRef := none
  deriving DecidableEq, Inhabited

/-- The role of a module in its bundle. -/
inductive ModuleKind where
  /-- The module that every device installs. -/
  | base
  /-- A module with code and resources of its own. -/
  | feature
  /-- A module that holds assets alone. -/
  | assetOnly
  deriving DecidableEq, Repr, Inhabited

/-- An entry together with its configuration, if it has one. -/
structure Slot where
  /-- The entry. -/
  entry : Entry
  /-- The configuration; without one the entry is for every device. -/
  config : Option EntryConfig := none
  deriving DecidableEq, Inhabited

/-- Place an entry: at the position of the entry with its path, or else at the end.  Without a new
configuration the old one stays. -/
def placeSlot (s : Slot) : List Slot → List Slot
  | [] => [s]
  | t :: l =>
    if t.entry.path = s.entry.path then ⟨s.entry, s.config.or t.config⟩ :: l else t :: placeSlot s l

theorem map_path_placeSlot (s : Slot) (l : List Slot) :
    (placeSlot s l).map (·.entry.path) =
      if s.entry.path ∈ l.map (·.entry.path) then l.map (·.entry.path)
      else l.map (·.entry.path) ++ [s.entry.path] := by
  induction l with
  | nil => simp [placeSlot]
  | cons t l ih =>
    rw [placeSlot]
    by_cases h : t.entry.path = s.entry.path
    · simp [h]
    · simp only [h, if_false, List.map_cons, List.mem_cons, ih, Ne.symm h, false_or]
      split <;> rfl

theorem nodup_placeSlot {s : Slot} {l : List Slot} (h : (l.map (·.entry.path)).Nodup) :
    ((placeSlot s l).map (·.entry.path)).Nodup := by
  rw [map_path_placeSlot]
  split
  · exact h
  · next hs => exact List.nodup_append.2 ⟨h, by simp, by simp_all⟩

/-- A module of a bundle. -/
structure BundleModule where
  /-- The name of the module. -/
  name : String
  /-- The role of the module. -/
  kind : ModuleKind := .feature
  /-- The manifest of the module. -/
  manifest : Manifest
  /-- The entries with their configurations. -/
  slots : List Slot := []
  /-- No two entries have one path. -/
  distinct : (slots.map (·.entry.path)).Nodup := by simp

namespace BundleModule

/-- The module with one more entry placed. -/
def place (m : BundleModule) (s : Slot) : BundleModule :=
  { m with slots := placeSlot s m.slots, distinct := nodup_placeSlot m.distinct }

/-- The module that results from placing entries one by one. -/
def ofPlacements (name : String) (kind : ModuleKind) (manifest : Manifest) (l : List Slot) :
    BundleModule :=
  l.foldl place { name, kind, manifest }

/-- The entries, in their order. -/
def entries (m : BundleModule) : List Entry := m.slots.map (·.entry)

/-- The configuration of the entry at a path. -/
def config? (m : BundleModule) (path : EntryPath) : Option EntryConfig :=
  (m.slots.find? fun s => s.entry.path = path).bind (·.config)

/-- Whether every device installs the module. -/
def isBase (m : BundleModule) : Bool := m.kind = .base

/-- Whether the module has a native library. -/
def hasNativeLibraries (m : BundleModule) : Bool := m.entries.any (·.path.isNativeLibrary)

end BundleModule
end BundlePackaging
