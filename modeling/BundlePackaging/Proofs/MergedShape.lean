import BundlePackaging.Proofs.PackageCode

/-!
# The shape of merged fragments

A cache that merges share can only ever hold renumbered segments, whichever shards were merged, in
which orders of modules and with whatever files.  So a merged fragment has its united entries first,
at distinct paths that are not those of code segments, and then code segments at the paths of the
numbers from 1.  Numbers have 32 bits; the paths are all distinct as long as the numbers do not run
out.

## Main definitions

* `MergeCache.Reachable` — the caches that a sequence of merges can leave.

## Main results

* `MergeCache.Holds.merge` — a merge keeps nothing but renumbered segments, and uses nothing else.
* `MergeCache.Reachable.holds` — a cache that merges have left holds renumbered segments.
* `nodup_paths_fragmentWith_iff` — when the paths of a merged fragment are distinct.
* `MergeCache.Reachable.shape_of_merge` — **merged fragments and what finishing makes of them have
  their code segments at the end, numbered from 1, and distinct paths.**
-/

namespace BundlePackaging

variable {o : ModuleOrder} {shard : Shard} {s : Storage} {g : Gathered} {l : List CodeSegment}
  {c : MergeCache} {w : Workbench} {merged : Merged}

/-! ### Caches -/

namespace MergeCache

/-- Merging some shard keeps a cache with renumbered segments, and makes a fragment of what is read
and of renumbered segments. -/
theorem Holds.merge (h : w.cache.Holds fun _ => True) (o : ModuleOrder) (shard : Shard) :
    ((o.merge shard w).2.cache.Holds fun _ => True) ∧
      ∀ merged, (o.merge shard w).1 = .ok merged →
        ∃ g l, (o.gather shard w.storage).1 = .ok g ∧
          merged.fragment = g.fragmentWith o (renumber l) := by
  rcases o.merge_cases shard w with ⟨fault, hread, hmerge⟩ | ⟨g, hread, hmerge⟩
  · rw [hmerge]
    refine ⟨h, ?_⟩
    intro merged hmerged
    cases hmerged
  · rw [hmerge]
    obtain ⟨hcache, l, -, -, hsegments⟩ := g.segments_of_holds h trivial
    refine ⟨hcache, ?_⟩
    intro merged hmerged
    obtain rfl := Except.ok.inj hmerged
    refine ⟨g, l, hread, ?_⟩
    rw [Gathered.fragment_fuse, hsegments]

/-- The caches that a sequence of merges leaves, from one with nothing kept.  The orders of modules,
the shards and the files may be others each time. -/
inductive Reachable : MergeCache → Prop where
  /-- Nothing was merged. -/
  | empty : Reachable .empty
  /-- One more shard was merged. -/
  | merge {c : MergeCache} (before : Reachable c) (o : ModuleOrder) (shard : Shard) (s : Storage) :
      Reachable (o.merge shard ⟨s, c⟩).2.cache

/-- A cache that merges have left holds renumbered segments. -/
theorem Reachable.holds (h : c.Reachable) : c.Holds fun _ => True := by
  induction h with
  | empty => exact holds_empty
  | @merge c _ o shard s ih =>
    have hbench : (Workbench.mk s c).cache.Holds fun _ => True := ih
    exact (hbench.merge o shard).1

end MergeCache

/-! ### Fragments -/

/-- The united entries are at distinct paths. -/
theorem nodup_plain_of_gather (h : (o.gather shard s).1 = .ok g) :
    ((g.union.plain.map (·.entry)).map (·.path)).Nodup := by
  rw [ModuleOrder.plain_of_gather h, List.map_map]
  exact nodup_firstsBy _ _

/-- A merged fragment has distinct paths just when the numbers of its code segments fit in 32
bits. -/
theorem nodup_paths_fragmentWith_iff (h : (o.gather shard s).1 = .ok g) (l : List CodeSegment) :
    (g.fragmentWith o (renumber l)).paths.Nodup ↔ (renumber l).length < UInt32.size := by
  show ((g.union.plain.map (·.entry) ++ renumber l).map (·.path)).Nodup ↔ _
  rw [List.map_append, List.nodup_append, map_path_renumber, EntryPath.nodup_map_dex_iff]
  constructor
  · rintro ⟨-, hlt, -⟩
    exact hlt
  · intro hlt
    refine ⟨nodup_plain_of_gather h, hlt, ?_⟩
    rw [← map_path_renumber]
    rintro q hq _ hq' rfl
    obtain ⟨e, he, rfl⟩ := List.mem_map.1 hq
    obtain ⟨e', he', hpath⟩ := List.mem_map.1 hq'
    have hdex := isDex_of_mem_renumber he'
    rw [hpath, isDex_of_mem_plain h he] at hdex
    cases hdex

/-- Whatever shards were merged before on the same cache, in whatever orders of modules and with
whatever files: a merged fragment consists of entries that are no code segments and, at its end, of
code segments at the paths of the numbers from 1, and its paths are distinct.  Any chain of steps
that finish standalone packages leaves the code segments as they are and the paths distinct.  The
paths are repeated only if the numbers run out of their 32 bits. -/
theorem MergeCache.Reachable.shape_of_merge (hc : c.Reachable)
    (h : (o.merge shard ⟨s, c⟩).1 = .ok merged) {chain : List Injector}
    (hchain : ∀ i ∈ chain, i.IsStandalone) :
    ∃ plain code, merged.fragment.entries = plain ++ code ∧
      (∀ e ∈ plain, e.path.isDex = false) ∧ (∀ e ∈ code, e.path.isDex) ∧
      code.map (·.path) = (List.range code.length).map (fun j => .dex ((j + 1) % UInt32.size)) ∧
      (code.length < UInt32.size →
        code.map (·.path) = (List.range code.length).map fun j => .dex (j + 1)) ∧
      (merged.fragment.paths.Nodup ↔ code.length < UInt32.size) ∧
      (applyInjectors chain merged.fragment).entries.filter (·.path.isDex) = code ∧
      ((applyInjectors chain merged.fragment).paths.Nodup ↔ code.length < UInt32.size) := by
  have hbench : (Workbench.mk s c).cache.Holds fun _ => True := hc.holds
  obtain ⟨g, l, hread, hfragment⟩ := (hbench.merge o shard).2 merged h
  have hnodup := nodup_paths_fragmentWith_iff hread l
  have hcode : (applyInjectors chain merged.fragment).entries.filter (·.path.isDex) =
      renumber l := by
    rw [filter_isDex_applyInjectors hchain, hfragment, filter_isDex_fragmentWith hread]
  rw [← hfragment] at hnodup
  refine ⟨g.union.plain.map (·.entry), renumber l, ?_, fun e => isDex_of_mem_plain hread,
    fun e => isDex_of_mem_renumber, map_path_renumber l, map_path_renumber_of_lt, hnodup, hcode, ?_⟩
  · rw [hfragment]
    rfl
  · constructor
    · intro hpaths
      have hsegments := hpaths.sublist ((List.filter_sublist
        (p := fun e : Entry => e.path.isDex)).map Entry.path)
      rw [hcode, map_path_renumber] at hsegments
      exact EntryPath.nodup_map_dex_iff.1 hsegments
    · intro hlt
      exact nodup_paths_applyInjectors hchain (hnodup.2 hlt)

/-- The cache after the code of two modules was merged. -/
def twinCache : MergeCache :=
  (ModuleOrder.merge ⟨["base", "feature"], none⟩ ⟨0, [], twinFragments⟩ ⟨{}, .empty⟩).2.cache

/-- A token and a profile for the package. -/
def twinInjectors : List Injector :=
  standaloneInjectors true (some "store")
    { codeTransparency := some ⟨4, .memory [4]⟩, baselineProfile := some ⟨5, .memory [5]⟩ }

/-- Merged again in another order of modules, the code is found in the cache. -/
theorem shape_of_merge_twinCache :
    ∃ merged, (ModuleOrder.merge ⟨["feature", "base"], none⟩ ⟨1, [], twinFragments⟩
        ⟨{}, twinCache⟩).1 = .ok merged ∧
      (ModuleOrder.merge ⟨["feature", "base"], none⟩ ⟨1, [], twinFragments⟩
        ⟨{}, twinCache⟩).2.cache.hits = 1 ∧
      ((applyInjectors twinInjectors merged.fragment).entries.filter (·.path.isDex)).map (·.path) =
        [.dex 1, .dex 2] ∧
      (applyInjectors twinInjectors merged.fragment).paths.Nodup := by
  have hlength : (ModuleOrder.merge ⟨["feature", "base"], none⟩ ⟨1, [], twinFragments⟩
      ⟨{}, twinCache⟩).1.toOption.map (fun merged =>
        ((applyInjectors twinInjectors merged.fragment).entries.filter (·.path.isDex)).length) =
          some 2 := by decide +kernel
  cases hmerge : (ModuleOrder.merge ⟨["feature", "base"], none⟩ ⟨1, [], twinFragments⟩
      ⟨{}, twinCache⟩).1 with
  | error fault =>
    rw [hmerge] at hlength
    cases hlength
  | ok merged =>
    rw [hmerge] at hlength
    have htwo : ((applyInjectors twinInjectors merged.fragment).entries.filter
      (·.path.isDex)).length = 2 := Option.some.inj hlength
    have hchain : ∀ i ∈ twinInjectors, i.IsStandalone := fun _ => isStandalone_of_mem
    obtain ⟨plain, code, -, -, -, -, hpaths, -, hcode, hnodup⟩ :=
      MergeCache.Reachable.shape_of_merge (.merge .empty _ _ _) hmerge hchain
    rw [hcode] at htwo
    have hlt : code.length < UInt32.size := by
      rw [htwo]
      decide
    refine ⟨merged, rfl, by decide +kernel, ?_, hnodup.2 hlt⟩
    rw [hcode, hpaths hlt, htwo]
    rfl

end BundlePackaging
