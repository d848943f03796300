import BundlePackaging.Device.Targeting
import BundlePackaging.Digest
import BundlePackaging.EntryPath

/-!
# Events of a generation run

What a run reports while it works, in the order in which it happens.  An event is known by what
happened; its level and its wording are in one place each.

## Main definitions

* `Event` — what can happen.
* `Event.level`, `Event.message`, `Event.line` — how it is reported.
-/

namespace BundlePackaging

/-- How much an event matters. -/
inductive Level where
  | trace | debug | info
  deriving DecidableEq, Repr

/-- The name of a level. -/
def Level.name : Level → String
  | trace => "TRACE"
  | debug => "DEBUG"
  | info => "INFO"

/-- Something that happens during a run. -/
inductive Event where
  /-- The run has a number of workers of its own. -/
  | workersStarted (workers : Nat)
  /-- The run begins. -/
  | runStarted (modules : Nat) (dimensions : SortedSet Dimension)
  /-- A base module gets empty native libraries. -/
  | placeholdersAdded (abis : Nat) (module : String)
  /-- An entry is dropped because its variant is not the chosen one. -/
  | variantDropped (module : String) (path : EntryPath) (value : Value)
  /-- An entry is dropped because the chosen variant is at its path. -/
  | fallbackReplaced (module : String) (path : EntryPath)
  /-- An entry stays in the master fragment because its resource is pinned. -/
  | entryPinned (module : String) (path : EntryPath)
  /-- An entry goes to the fragment of a value. -/
  | entryAssigned (module : String) (path : EntryPath) (value : Value)
  /-- A module is cut into fragments. -/
  | moduleSplit (module : String) (fragments masterEntries : Nat)
  /-- The points of the shards are known. -/
  | shardingStarted (fragments axes points : Nat)
  /-- The fragments are grouped. -/
  | fragmentsGrouped (fragments shards : Nat) (dimensions : SortedSet Dimension)
  /-- The renumbered code segments are in the cache. -/
  | cacheHit (key : Digest)
  /-- The renumbered code segments are not in the cache. -/
  | cacheMiss (key : Digest)
  /-- A shard is merged into one fragment. -/
  | shardMerged (shard : Nat) (targeting : Targeting) (fragments modules entries segments : Nat)
  /-- An injector works on a package. -/
  | injectorApplied (injector module : String)
  /-- The run ends with packages. -/
  | runFinished (packages fragments hits misses : Nat)
  deriving DecidableEq

namespace Event

/-- The level of an event. -/
def level : Event → Level
  | variantDropped .. | fallbackReplaced .. | entryPinned .. | entryAssigned .. | cacheHit ..
  | cacheMiss .. | injectorApplied .. => .trace
  | workersStarted .. | placeholdersAdded .. | moduleSplit .. | shardingStarted ..
  | shardMerged .. => .debug
  | runStarted .. | fragmentsGrouped .. | runFinished .. => .info

/-- A set of dimensions by their log names. -/
def logSet (dimensions : SortedSet Dimension) : String :=
  "\x7b" ++ ", ".intercalate (dimensions.toList.map Dimension.logName) ++ "\x7d"

/-- A set of dimensions as the axes of a product. -/
def axisProduct (dimensions : SortedSet Dimension) : String :=
  if dimensions.isEmpty then "no dimensions"
  else " x ".intercalate (dimensions.toList.map Dimension.displayName)

/-- A key of the merge cache in a log line. -/
def describeKey (key : Digest) : String := "DexMergeKey(" ++ key.brief ++ ")"

/-- The wording of an event. -/
def message : Event → String
  | workersStarted workers => "Generating on a dedicated pool of " ++ toString workers ++ " workers"
  | runStarted modules dimensions =>
    "Generating standalone packages for " ++ toString modules ++ " modules sharded on " ++
      logSet dimensions
  | placeholdersAdded abis module =>
    "Adding placeholder libraries for " ++ toString abis ++ " ABIs to module '" ++ module ++ "'"
  | variantDropped module path value =>
    module ++ ": " ++ path.text ++ " dropped, " ++ value.name ++ " not selected"
  | fallbackReplaced module path => module ++ ": fallback " ++ path.text ++ " replaced"
  | entryPinned module path => module ++ ": " ++ path.text ++ " pinned to master"
  | entryAssigned module path value => module ++ ": " ++ path.text ++ " -> " ++ value.name
  | moduleSplit module fragments masterEntries =>
    "Split module '" ++ module ++ "' into " ++ toString fragments ++ " splits (" ++
      toString masterEntries ++ " master entries)"
  | shardingStarted fragments axes points =>
    "Sharding " ++ toString fragments ++ " splits over " ++ toString axes ++ " axes (" ++
      toString points ++ " points)"
  | fragmentsGrouped fragments shards dimensions =>
    "Grouped " ++ toString fragments ++ " splits into " ++ toString shards ++
      " shards (sharded on " ++ axisProduct dimensions ++ ")"
  | cacheHit key => "Dex merge cache hit for " ++ describeKey key
  | cacheMiss key => "Dex merge cache miss for " ++ describeKey key
  | shardMerged shard targeting fragments modules entries segments =>
    "Merged shard " ++ toString shard ++ " [" ++ targeting.describe ++ "]: " ++
      toString fragments ++ " splits from " ++ toString modules ++ " modules, " ++
      toString entries ++ " entries, " ++ toString segments ++ " code segments"
  | injectorApplied injector module => "Applying " ++ injector ++ " injector to " ++ module
  | runFinished packages fragments hits misses =>
    "Generated " ++ toString packages ++ " standalone packages from " ++ toString fragments ++
      " splits (" ++ toString hits ++ " dex cache hits, " ++ toString misses ++ " misses)"

/-- The log line of an event. -/
def line (e : Event) : String := e.level.name ++ " " ++ e.message

end Event
end BundlePackaging
