import BundlePackaging.Proofs.CacheHistory
import BundlePackaging.Proofs.Distribution
import Mathlib.Data.List.Forall2

/-!
# Runs and their packages

A run whose fragments can be sharded ends as the merging of its shards ends.  Every package of a
successful run is the merge of the shard of a point, finished; which code segments it got depends on
the cache, all else on what was read of the shard.

## Main definitions

* `IsPackage` — a package and the shard that it was made of.

## Main results

* `generatePackages_of_shards` — a run, once its fragments are sharded.
* `forall₂_isPackage_of_finishShards` — the packages are those of the shards, in their order.
* `isPackage_of_mem_packages` — **every package was made of the shard of a point.**
-/

namespace BundlePackaging

variable {o : ModuleOrder} {s : Storage} {p : Policy} {stamp : Option String}
  {metadata : BundleMetadata} {workers : Workers} {modules : List BundleModule}
  {found : List Shard} {packages : List Fragment}

/-! ### Runs -/

/-- If the fragments can be sharded, a run ends as the merging of its shards does. -/
theorem generatePackages_of_shards (stamp : Option String) (metadata : BundleMetadata)
    (workers : Workers) (s : Storage)
    (h : shards p.standaloneDimensions (bundleFragments p modules p.standaloneDimensions) =
      .ok found) :
    let run := finishShards (.ofModules modules)
      (standaloneInjectors p.restrictV3Signing stamp metadata) found { storage := s }
    (generatePackages p stamp metadata workers modules s).result = run.result ∧
      (generatePackages p stamp metadata workers modules s).workbench = run.workbench := by
  unfold generatePackages
  simp only [h]
  split
  · next fault hrun => exact ⟨hrun.symm, rfl⟩
  · next packages hrun => exact ⟨hrun.symm, rfl⟩

/-- A successful run has sharded its fragments, and merged and finished the shards. -/
theorem finishShards_of_generatePackages
    (h : (generatePackages p stamp metadata workers modules s).result = .ok packages) :
    ∃ found, shards p.standaloneDimensions
        (bundleFragments p modules p.standaloneDimensions) = .ok found ∧
      (finishShards (.ofModules modules) (standaloneInjectors p.restrictV3Signing stamp metadata)
        found { storage := s }).result = .ok packages := by
  cases hfound : shards p.standaloneDimensions
      (bundleFragments p modules p.standaloneDimensions) with
  | error fault =>
    unfold generatePackages at h
    simp only [hfound] at h
    cases h
  | ok found =>
    obtain ⟨hresult, -⟩ := generatePackages_of_shards stamp metadata workers s hfound
    exact ⟨found, rfl, hresult.symm.trans h⟩

/-- A run whose result is no fault has packages. -/
theorem exists_packages_of_isSome (p : Policy) (stamp : Option String) (metadata : BundleMetadata)
    (workers : Workers) (modules : List BundleModule) (s : Storage)
    (h : (generatePackages p stamp metadata workers modules s).result.toOption.isSome) :
    ∃ packages, (generatePackages p stamp metadata workers modules s).result = .ok packages := by
  cases hresult : (generatePackages p stamp metadata workers modules s).result with
  | error fault =>
    rw [hresult] at h
    cases h
  | ok packages => exact ⟨packages, rfl⟩

/-- A run of which something was computed from its packages has these packages. -/
theorem exists_packages_of_map_eq {β : Type} {f : List Fragment → β} {b : β}
    (h : (generatePackages p stamp metadata workers modules s).result.toOption.map f = some b) :
    ∃ packages, (generatePackages p stamp metadata workers modules s).result = .ok packages ∧
      f packages = b := by
  obtain ⟨packages, hrun⟩ := exists_packages_of_isSome p stamp metadata workers modules s
    (Option.isSome_map.symm.trans (congrArg Option.isSome h))
  rw [hrun] at h
  exact ⟨packages, hrun, Option.some.inj h⟩

/-! ### Packages -/

/-- A package of a run: the merge of a shard that was read in the storage `t`, with some code
segments, and finished. -/
structure IsPackage (o : ModuleOrder) (chain : List Injector) (t : Storage) (shard : Shard)
    (g : Gathered) (P : Fragment) : Prop where
  /-- The shard was read. -/
  read : (o.gather shard t).1 = .ok g
  /-- The package is made of what was read. -/
  made : ∃ l, P = applyInjectors chain (g.fragmentWith o (renumber l))

/-- What is made of the shards of a run are their packages, one after the other, read in storages
that satisfy whatever reading keeps. -/
theorem forall₂_isPackage_of_finishShards {chain : List Injector} {I : Storage → Prop}
    {shards : List Shard} (hI : ∀ shard ∈ shards, ∀ t, I t → I (o.gather shard t).2)
    {w : Workbench} (hw : I w.storage) (hcache : w.cache.Holds fun _ => True)
    (h : (finishShards o chain shards w).result = .ok packages) :
    List.Forall₂ (fun shard P => ∃ t g, I t ∧ IsPackage o chain t shard g P) shards packages := by
  induction shards generalizing w packages with
  | nil =>
    cases h
    exact .nil
  | cons shard shards ih =>
    obtain ⟨hshard, hI⟩ := List.forall_mem_cons.1 hI
    unfold finishShards ModuleOrder.merge at h
    rcases hread : o.gather shard w.storage with ⟨fault | g, t⟩
    · rw [hread] at h
      cases h
    · rw [hread] at h
      dsimp only at h
      have hnext := hshard w.storage hw
      rw [hread] at hnext
      -- where the segments come from does not matter here, so nothing is asked of what is kept
      obtain ⟨hkept, l, -, -, hsegments⟩ := Gathered.segments_of_holds (g := g) hcache trivial
      cases hrun : (finishShards o chain shards ⟨t, (g.fuse o shard w.cache).2⟩).result with
      | error fault =>
        rw [hrun] at h
        cases h
      | ok rest =>
        rw [hrun] at h
        cases h
        refine .cons ⟨w.storage, g, hw, by rw [hread], l, ?_⟩ (ih hI hnext hkept hrun)
        rw [g.fragment_fuse, hsegments]

theorem exists_mem_of_forall₂ {α β : Type} {R : α → β → Prop} {l : List α} {r : List β}
    (h : List.Forall₂ R l r) : ∀ b ∈ r, ∃ a ∈ l, R a b := by
  induction h with
  | nil => simp
  | @cons a b l r hab _ ih =>
    intro b' hb'
    rcases List.mem_cons.1 hb' with rfl | hb'
    · exact ⟨a, List.mem_cons_self, hab⟩
    · obtain ⟨a', ha', hrel⟩ := ih b' hb'
      exact ⟨a', List.mem_cons_of_mem a ha', hrel⟩

/-- Every package of a successful run was made of the shard of a point, read in a storage that
satisfies whatever reading shards keeps. -/
theorem isPackage_of_mem_packages {I : Storage → Prop} (hs : I s)
    (hI : ∀ i, ∀ point ∈ points (observedAxes p.standaloneDimensions
      (bundleFragments p modules p.standaloneDimensions)), ∀ t, I t →
        I (ModuleOrder.gather (.ofModules modules) (shardAt (bundleFragments p modules
          p.standaloneDimensions) i point) t).2)
    (h : (generatePackages p stamp metadata workers modules s).result = .ok packages) :
    ∀ P ∈ packages, ∃ i, ∃ point ∈ points (observedAxes p.standaloneDimensions
        (bundleFragments p modules p.standaloneDimensions)), ∃ t g, I t ∧
      IsPackage (.ofModules modules) (standaloneInjectors p.restrictV3Signing stamp metadata) t
        (shardAt (bundleFragments p modules p.standaloneDimensions) i point) g P := by
  obtain ⟨found, hfound, hmade⟩ := finishShards_of_generatePackages h
  have hshards := of_shards_eq_ok hfound
  have hkeep : ∀ shard ∈ found, ∀ t, I t →
      I (ModuleOrder.gather (.ofModules modules) shard t).2 := by
    intro shard hshard
    obtain ⟨i, point, hpoint, rfl⟩ := hshards shard hshard
    exact hI i point hpoint
  intro P hP
  obtain ⟨shard, hshard, t, g, ht, hpackage⟩ := exists_mem_of_forall₂
    (forall₂_isPackage_of_finishShards hkeep hs MergeCache.holds_empty hmade) P hP
  obtain ⟨i, point, hpoint, rfl⟩ := hshards shard hshard
  exact ⟨i, point, hpoint, t, g, ht, hpackage⟩

end BundlePackaging
