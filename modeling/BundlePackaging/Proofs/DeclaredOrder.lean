import BundlePackaging.Proofs.Canonical
import BundlePackaging.Proofs.Uniting

/-!
# The order of modules alone counts

Merging puts the fragments of a shard into the order of their modules and leaves those of a module
in the order of the shard.  A module's name tells its position, so fragments that come in another
order are put into the same order again, as long as those of each module keep theirs.  All that
follows looks at the fragments in this order only; how many modules there are does not depend on an
order.

## Main results

* `ModuleOrder.arrange_congr` — what the order of modules makes of the fragments of a shard.
* `ModuleOrder.gather_congr`, `Gathered.fuse_congr` — what is read and what is made of it.
* `ModuleOrder.merge_eq_of_perm` — **a shard is merged alike in whatever order its modules come.**
-/

namespace BundlePackaging

variable {o : ModuleOrder} {fs fs' : List Fragment} {shard shard' : Shard}

/-! ### Fragments -/

namespace ModuleOrder

/-- Fragments of which those of each module are in the same order are put into the same order. -/
theorem arrange_congr (hknown : ∀ f ∈ fs, f.module ∈ o.names)
    (h : ∀ name, fs.filter (·.module = name) = fs'.filter (·.module = name)) :
    o.arrange fs = o.arrange fs' := by
  apply eq_of_pairwise_of_filter_eq Fragment.module _ (o.pairwise_position_arrange fs)
    (o.pairwise_position_arrange fs')
  · intro name
    rw [o.filter_module_arrange, o.filter_module_arrange, h]
  · intro f hf f' hf' hle hge
    exact (List.idxOf_inj (hknown f (mem_arrange.1 hf))).1 (Nat.le_antisymm hle hge)

theorem unknown?_eq_none (hknown : ∀ f ∈ fs, f.module ∈ o.names) : o.unknown? fs = none := by
  unfold unknown?
  simpa using hknown

end ModuleOrder

theorem Shard.length_modules_congr (hperm : shard.fragments.Perm shard'.fragments) :
    shard.modules.length = shard'.modules.length := by
  apply List.Perm.length_eq
  unfold modules
  rw [List.perm_ext_iff_of_nodup (nodup_firstsBy_id _) (nodup_firstsBy_id _)]
  intro name
  rw [mem_firstsBy_id, mem_firstsBy_id, (hperm.map _).mem_iff]

/-! ### Merges -/

/-- What is read of a shard depends on the order of modules alone. -/
theorem ModuleOrder.gather_congr (hindex : shard.index = shard'.index)
    (hknown : ∀ f ∈ shard.fragments, f.module ∈ o.names)
    (h : ∀ name, shard.fragments.filter (·.module = name) =
      shard'.fragments.filter (·.module = name)) : o.gather shard = o.gather shard' := by
  have hknown' : ∀ f ∈ shard'.fragments, f.module ∈ o.names := fun f hf =>
    hknown f ((mem_iff_of_filter_eq h f).2 hf)
  unfold gather
  rw [unknown?_eq_none hknown, unknown?_eq_none hknown', arrange_congr hknown h, hindex]

/-- What is made of what was read depends on the index of the shard and the number of its modules
alone. -/
theorem Gathered.fuse_congr (hindex : shard.index = shard'.index)
    (hmodules : shard.modules.length = shard'.modules.length) (g : Gathered) (o : ModuleOrder)
    (c : MergeCache) : g.fuse o shard c = g.fuse o shard' c := by
  unfold fuse
  rw [hindex, hmodules]

/-- If all modules of a shard are in the order of modules, then it does not matter in which order
the shard lists its fragments, as long as those of each module keep their order: merging ends with
the same fault, or makes the same fragment, reports the same, and leaves the same files, digests and
cache. -/
theorem ModuleOrder.merge_eq_of_perm (hindex : shard.index = shard'.index)
    (hperm : shard.fragments.Perm shard'.fragments)
    (horder : ∀ name, shard.fragments.filter (·.module = name) =
      shard'.fragments.filter (·.module = name))
    (hknown : ∀ f ∈ shard.fragments, f.module ∈ o.names) (w : Workbench) :
    o.merge shard w = o.merge shard' w := by
  have hmodules := Shard.length_modules_congr hperm
  have hfuse := fun g => Gathered.fuse_congr hindex hmodules g o w.cache
  unfold merge
  rw [gather_congr hindex hknown horder]
  simp only [hfuse]

/-- Code and an asset for every device. -/
def baseMaster : Fragment :=
  .ofMaster "base" ⟨"app", ∅, ∅⟩ [⟨⟨"assets/a"⟩, ⟨1, .memory [1]⟩, .compressed⟩,
    ⟨.dex 1, ⟨2, .memory [2]⟩, .compressed⟩]

/-- The code of another module. -/
def featureMaster : Fragment :=
  .ofMaster "feature" ⟨"app", ∅, ∅⟩ [⟨.dex 1, ⟨3, .memory [3]⟩, .uncompressed⟩]

/-- A drawing for one density. -/
def baseDrawing : Fragment :=
  .ofValue "base" ⟨"app", ∅, ∅⟩ (.screenDensity .hdpi)
    [⟨⟨"res/c"⟩, ⟨4, .memory [4]⟩, .compressed⟩]

/-- The other module stands between the fragments of the first. -/
def interleavedShard : Shard := ⟨0, [], [baseMaster, featureMaster, baseDrawing]⟩

/-- The other module stands in front. -/
def regroupedShard : Shard := ⟨0, [], [featureMaster, baseMaster, baseDrawing]⟩

theorem merge_eq_of_perm_interleavedShard :
    interleavedShard.fragments.Perm regroupedShard.fragments ∧
      (∀ name, interleavedShard.fragments.filter (·.module = name) =
        regroupedShard.fragments.filter (·.module = name)) ∧
      (∀ f ∈ interleavedShard.fragments, f.module ∈ ["base", "feature"]) ∧
      ((ModuleOrder.merge ⟨["base", "feature"], none⟩ interleavedShard {}).1.toOption.map
        (·.fragment.paths) = some [⟨"assets/a"⟩, ⟨"res/c"⟩, .dex 1, .dex 2]) ∧
      ModuleOrder.merge ⟨["base", "feature"], none⟩ interleavedShard {} =
        ModuleOrder.merge ⟨["base", "feature"], none⟩ regroupedShard {} := by
  have hperm : interleavedShard.fragments.Perm regroupedShard.fragments := .swap _ _ _
  have horder : ∀ name, interleavedShard.fragments.filter (·.module = name) =
      regroupedShard.fragments.filter (·.module = name) := by
    intro name
    have hbase : baseMaster.module = "base" := rfl
    have hfeature : featureMaster.module = "feature" := rfl
    unfold interleavedShard regroupedShard
    by_cases hname : name = "feature"
    · simp [List.filter_cons, hbase, hfeature, hname]
    · simp [List.filter_cons, hfeature, Ne.symm hname]
  have hknown : ∀ f ∈ interleavedShard.fragments, f.module ∈ ["base", "feature"] := by decide
  have hindex : interleavedShard.index = regroupedShard.index := rfl
  refine ⟨hperm, horder, hknown, by decide +kernel, ?_⟩
  exact ModuleOrder.merge_eq_of_perm hindex hperm horder hknown {}

end BundlePackaging
