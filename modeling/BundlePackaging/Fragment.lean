import BundlePackaging.Device.Targeting
import BundlePackaging.Entry
import BundlePackaging.Manifest

/-!
# Fragments

A fragment is a part of a module for some devices, or the whole that results from merging parts of
several modules.

## Main definitions

* `Fragment` — the fragments, with `Fragment.ofMaster` and `Fragment.ofValue`.
* `Fragment.withEntry` — a fragment with one more entry.

## Main results

* `Fragment.paths_withEntry` — the path of an added entry is there once, at the end.
-/

namespace BundlePackaging

/-- How devices take a fragment. -/
inductive FragmentKind where
  /-- Together with other fragments. -/
  | split
  /-- As a package that is complete in itself. -/
  | standalone
  deriving DecidableEq, Repr, Inhabited

/-- The word for a kind of fragment. -/
def FragmentKind.name : FragmentKind → String
  | split => "split"
  | standalone => "standalone"

/-- A part of a module, or of several modules merged. -/
structure Fragment where
  /-- The name of the module. -/
  module : String
  /-- The entries. -/
  entries : List Entry
  /-- The devices that the fragment is for. -/
  targeting : Targeting
  /-- The devices that a finished package is offered to. -/
  variant : VariantTargeting := {}
  /-- Whether the fragment is for every device. -/
  master : Bool
  /-- How devices take the fragment. -/
  kind : FragmentKind := .split
  /-- The manifest. -/
  manifest : Manifest
  deriving DecidableEq, Inhabited

namespace Fragment

/-- The fragment of a module that every device takes. -/
def ofMaster (module : String) (manifest : Manifest) (entries : List Entry) : Fragment :=
  { module, manifest, entries, targeting := .master, master := true }

/-- The fragment of a module for the devices with one value. -/
def ofValue (module : String) (manifest : Manifest) (v : Value) (entries : List Entry) : Fragment :=
  { module, manifest, entries, targeting := .ofValue v, master := false }

/-- The first entry at a path. -/
def find? (f : Fragment) (path : EntryPath) : Option Entry := f.entries.find? fun e => e.path = path

theorem path_of_find? {f : Fragment} {path : EntryPath} {e : Entry} (h : f.find? path = some e) :
    e.path = path := by
  have hpath := List.find?_some h
  exact of_decide_eq_true hpath

/-- The paths of the entries, in order. -/
def paths (f : Fragment) : List EntryPath := f.entries.map (·.path)

/-- The fragment with an entry at its end, in place of all entries at the same path. -/
def withEntry (f : Fragment) (e : Entry) : Fragment :=
  { f with entries := f.entries.filter (fun x => x.path ≠ e.path) ++ [e] }

theorem paths_withEntry (f : Fragment) (e : Entry) :
    (f.withEntry e).paths = f.paths.filter (· ≠ e.path) ++ [e.path] := by
  simp [paths, withEntry, List.filter_map, Function.comp_def]

/-- The text of a fragment in listings. -/
def describe (f : Fragment) : String :=
  f.module ++ " [" ++ f.targeting.describe ++ "] (" ++ toString f.entries.length ++ " entries, " ++
    f.kind.name ++ ")"

end Fragment
end BundlePackaging
