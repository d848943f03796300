import BundlePackaging.Finishing
import BundlePackaging.Fusion
import BundlePackaging.Partition

/-!
# Generation of standalone packages

A run cuts every module of a bundle into fragments along the dimensions of standalone packages,
groups the fragments of all modules into shards, merges each shard and finishes the result.  The
modules and then the shards are handled in order and the first fault ends the run.

A run that asks for workers of its own begins when they have been started.  Whether they can be is
for the system to say, and if they cannot there is no run.

## Main definitions

* `generatePackages` — a run.
* `finishShards` — its last part, from the shards to the packages.
* `startAndGenerate` — a run together with the start of its workers.
* `GenerationFault`, `GenerationFault.message` — why that gives no packages.

## Main results

* `startAndGenerate_eq_ok_iff` — there are packages if the workers start and the run has them.
-/

namespace BundlePackaging

/-- How a run ended. -/
structure RunOutcome (α : Type) where
  /-- The result, or the fault that ended the run. -/
  result : Except Fault α
  /-- What was reported, in order. -/
  events : List Event
  /-- What the run left behind. -/
  workbench : Workbench

/-- The fragments of all modules of a bundle. -/
def bundleFragments (p : Policy) (modules : List BundleModule) (dims : SortedSet Dimension) :
    List Fragment :=
  modules.flatMap fun m => p.partition m dims

/-- Merge and finish shards one after the other, up to the first fault. -/
def finishShards (o : ModuleOrder) (chain : List Injector) :
    List Shard → Workbench → RunOutcome (List Fragment)
  | [], w => ⟨.ok [], [], w⟩
  | shard :: rest, w =>
    match o.merge shard w with
    | (.error fault, w') => ⟨.error fault, [], w'⟩
    | (.ok merged, w') =>
      let run := finishShards o chain rest w'
      ⟨run.result.map (applyInjectors chain merged.fragment :: ·),
        merged.events ++ injectorEvents chain merged.fragment ++ run.events, run.workbench⟩

/-- Where a run does its work. -/
inductive Workers where
  /-- With workers that all runs share. -/
  | shared
  /-- With a number of workers of its own, which are started before it begins. -/
  | dedicated (count : Nat)
  deriving DecidableEq, Repr

/-- What is reported of the workers. -/
def Workers.events : Workers → List Event
  | shared => []
  | dedicated count => [.workersStarted count]

/-- Generate the standalone packages of a bundle, whose modules are given in the order of their
declaration. -/
def generatePackages (p : Policy) (stamp : Option String) (metadata : BundleMetadata)
    (workers : Workers) (modules : List BundleModule) (storage : Storage) :
    RunOutcome (List Fragment) :=
  let dims := p.standaloneDimensions
  let fragments := bundleFragments p modules dims
  let started := workers.events ++ [.runStarted modules.length dims] ++
    modules.flatMap (p.partitionEvents · dims) ++ shardingEvents dims fragments
  match shards dims fragments with
  | .error fault => ⟨.error fault, started, { storage }⟩
  | .ok shards =>
    let chain := standaloneInjectors p.restrictV3Signing stamp metadata
    let run := finishShards (.ofModules modules) chain shards { storage }
    match run.result with
    | .error fault => ⟨.error fault, started ++ run.events, run.workbench⟩
    | .ok packages =>
      let cache := run.workbench.cache
      ⟨.ok packages, started ++ run.events ++
        [.runFinished packages.length fragments.length cache.hits cache.misses], run.workbench⟩

/-! ### Starting the workers -/

/-- Why there are no packages. -/
inductive GenerationFault where
  /-- The run has ended with a fault. -/
  | run (fault : Fault)
  /-- The workers of the run could not be started. -/
  | workersNotStarted (cause : String)
  deriving DecidableEq

/-- The wording of a fault. -/
def GenerationFault.message : GenerationFault → String
  | run fault => fault.message
  | workersNotStarted cause => "Failed to start worker pool: " ++ cause

/-- Why the workers of a run cannot be started, if they cannot; `fails count` says so of a number of
workers.  Shared workers need not be started. -/
def Workers.startFault? (fails : Nat → Option String) : Workers → Option String
  | shared => none
  | dedicated count => fails count

/-- Start the workers and generate the standalone packages of a bundle; with what was reported. -/
def startAndGenerate (fails : Nat → Option String) (p : Policy) (stamp : Option String)
    (metadata : BundleMetadata) (workers : Workers) (modules : List BundleModule)
    (storage : Storage) : Except GenerationFault (List Fragment) × List Event :=
  match workers.startFault? fails with
  | some cause => (.error (.workersNotStarted cause), workers.events)
  | none =>
    let run := generatePackages p stamp metadata workers modules storage
    (run.result.mapError .run, run.events)

section Starting

variable {fails : Nat → Option String} {p : Policy} {stamp : Option String}
  {metadata : BundleMetadata} {workers : Workers} {modules : List BundleModule} {storage : Storage}

theorem startAndGenerate_of_started (h : workers.startFault? fails = none) :
    (startAndGenerate fails p stamp metadata workers modules storage).1 =
      (generatePackages p stamp metadata workers modules storage).result.mapError .run := by
  unfold startAndGenerate
  rw [h]

theorem startAndGenerate_of_startFault {cause : String}
    (h : workers.startFault? fails = some cause) :
    (startAndGenerate fails p stamp metadata workers modules storage).1 =
      .error (.workersNotStarted cause) := by
  unfold startAndGenerate
  rw [h]

/-- The fault is that the workers could not be started just when they could not. -/
theorem startAndGenerate_eq_workersNotStarted_iff {cause : String} :
    (startAndGenerate fails p stamp metadata workers modules storage).1 =
      .error (.workersNotStarted cause) ↔ workers.startFault? fails = some cause := by
  cases hstart : workers.startFault? fails with
  | some other => simp [startAndGenerate_of_startFault hstart]
  | none =>
    rw [startAndGenerate_of_started hstart]
    cases (generatePackages p stamp metadata workers modules storage).result with
    | error fault => exact ⟨nofun, nofun⟩
    | ok packages => exact ⟨nofun, nofun⟩

/-- There are packages just when the workers start and the run has them. -/
theorem startAndGenerate_eq_ok_iff {packages : List Fragment} :
    (startAndGenerate fails p stamp metadata workers modules storage).1 = .ok packages ↔
      workers.startFault? fails = none ∧
        (generatePackages p stamp metadata workers modules storage).result = .ok packages := by
  cases hstart : workers.startFault? fails with
  | some cause => simp [startAndGenerate_of_startFault hstart]
  | none =>
    rw [startAndGenerate_of_started hstart]
    cases (generatePackages p stamp metadata workers modules storage).result with
    | error fault => exact ⟨nofun, nofun⟩
    | ok found =>
      change Except.ok found = _ ↔ _
      simp

end Starting

end BundlePackaging
