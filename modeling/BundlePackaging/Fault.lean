import BundlePackaging.Content
import BundlePackaging.Device.Dimension
import BundlePackaging.EntryPath

/-!
# Faults of a generation run

Every fault ends the run in which it arises.  A fault is known by its cause; its wording is in one
place, `Fault.message`.

## Main definitions

* `Fault`, `Fault.message` — the causes and their wording.
-/

namespace BundlePackaging

/-- Why packages could not be generated. -/
inductive Fault where
  /-- Two modules provide different content at one path of a shard. -/
  | conflictingEntry (path : EntryPath) (shard : Nat) (firstModule secondModule : String)
  /-- Two fragments of a shard are targeted at different values of one dimension. -/
  | conflictingTargeting (dimension : Dimension) (shard : Nat) (module first second : String)
  /-- A shard has no fragments. -/
  | emptyShard (shard : Nat)
  /-- A module has two fragments for the same axis of a shard, or two for every device. -/
  | duplicateFragment (module : String) (axis : Option Dimension) (shard : Nat)
  /-- A fragment is targeted along a dimension that is not sharded on. -/
  | unshardedDimension (module : String) (dimension : Dimension)
  /-- A fragment's module is not in the order of modules. -/
  | unknownModule (module : String)
  /-- The bytes of an entry could not be read. -/
  | unreadableContent (path : EntryPath) (file : String) (cause : FileError)
  deriving DecidableEq

/-- The wording of a fault. -/
def Fault.message : Fault → String
  | conflictingEntry path shard first second =>
    "Conflicting entry '" ++ path.text ++ "' in shard " ++ toString shard ++ ": modules '" ++
      first ++ "' and '" ++ second ++ "' provide different content"
  | conflictingTargeting dimension shard module first second =>
    "Conflicting " ++ dimension.displayName ++ " targeting in shard " ++ toString shard ++ ": '" ++
      first ++ "' vs '" ++ second ++ "' (module '" ++ module ++ "')"
  | emptyShard shard => "Shard " ++ toString shard ++ " contains no fragments"
  | duplicateFragment module axis shard =>
    "Module '" ++ module ++ "' contributes more than one " ++
      (axis.map Dimension.displayName).getD "master" ++ " fragment to shard " ++ toString shard
  | unshardedDimension module dimension =>
    "Fragment of module '" ++ module ++ "' targets " ++ dimension.displayName ++
      ", which is not a sharded dimension"
  | unknownModule module => "Module '" ++ module ++ "' is not part of the declared module order"
  | unreadableContent path file _ =>
    "Failed to read content of '" ++ path.text ++ "' from " ++ file

end BundlePackaging
