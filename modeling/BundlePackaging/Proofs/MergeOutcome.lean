import BundlePackaging.Proofs.MergeFaults
import BundlePackaging.Proofs.MergedShape

/-!
# What a merge ends with

The cache has a say in the code segments alone.  So whatever was merged before, a shard of intact
contents fails to be merged just when it cannot be read; otherwise the entries of the merged fragment
that are not code segments are the first at each path, if the fragments are taken in the order of
their modules.

## Main results

* `Gathered.plain_fragmentWith` — the entries of a merged fragment that are not code segments.
* `MergeCache.Reachable.merge_ends` — **a merge fails for one of four reasons, or unites all
  entries.**
-/

namespace BundlePackaging

variable {o : ModuleOrder} {shard : Shard} {s : Storage} {g : Gathered} {l : List CodeSegment}
  {c : MergeCache}

theorem Shard.not_targetingsAgree_iff : ¬ shard.TargetingsAgree ↔
    ∃ f ∈ shard.fragments, ∃ f' ∈ shard.fragments, ∃ d v w,
      f.targeting.get? d = some v ∧ f'.targeting.get? d = some w ∧ v ≠ w := by
  unfold TargetingsAgree Targeting.Agrees
  simp only [not_forall, exists_prop]

/-! ### Entries that are not code segments -/

/-- The entries of some fragments that are not code segments, in order. -/
def plainEntries (fs : List Fragment) : List Entry :=
  (fs.flatMap (·.entries)).filter fun e => !e.path.isDex

theorem map_entry_plainOf_contributions (o : ModuleOrder) (fs : List Fragment) :
    (plainOf (o.contributions fs)).map (·.entry) = plainEntries fs := by
  unfold plainOf plainEntries ModuleOrder.contributions
  have hentries : (fun e : Entry => !e.path.isDex) ∘ Contribution.entry =
      fun x : Contribution => !x.entry.path.isDex := rfl
  rw [← hentries, ← List.filter_map, List.map_flatMap]
  simp only [List.map_map, Function.comp_def, List.map_id']

/-- The entries of a merged fragment that are not code segments are the first at each path. -/
theorem Gathered.plain_fragmentWith (h : (o.gather shard s).1 = .ok g) (l : List CodeSegment) :
    (g.fragmentWith o (renumber l)).entries.filter (fun e => !e.path.isDex) =
      firstsBy (·.path) (plainEntries (o.arrange shard.fragments)) := by
  change (g.union.plain.map (·.entry) ++ renumber l).filter (fun e => !e.path.isDex) = _
  have hplain : (g.union.plain.map (·.entry)).filter (fun e => !e.path.isDex) =
      g.union.plain.map (·.entry) := by
    rw [List.filter_eq_self]
    intro e he
    rw [isDex_of_mem_plain h he]
    rfl
  have hcode : (renumber l).filter (fun e => !e.path.isDex) = [] := by
    rw [List.filter_eq_nil_iff]
    intro e he
    simp [isDex_of_mem_renumber he]
  rw [List.filter_append, hplain, hcode, List.append_nil, ModuleOrder.plain_of_gather h,
    map_firstsBy Contribution.entry Entry.path, ModuleOrder.shardContributions,
    map_entry_plainOf_contributions]

theorem mem_paths_plainEntries {fs : List Fragment} {q : EntryPath} :
    q ∈ (plainEntries fs).map (·.path) ↔ q.isDex = false ∧ ∃ f ∈ fs, q ∈ f.paths := by
  unfold plainEntries Fragment.paths
  simp only [List.mem_map, List.mem_filter, List.mem_flatMap, Bool.not_eq_true']
  constructor
  · rintro ⟨e, ⟨⟨f, hf, he⟩, hdex⟩, rfl⟩
    exact ⟨hdex, f, hf, e, he, rfl⟩
  · rintro ⟨hdex, f, hf, e, he, rfl⟩
    exact ⟨e, ⟨⟨f, hf, he⟩, hdex⟩, rfl⟩

/-! ### Merges -/

/-- The entries of a merged fragment that are not code segments are one for each such path, the first
there if the fragments are taken in the order of their modules. -/
theorem MergeCache.Reachable.united_of_merge (hc : c.Reachable) {merged : Merged}
    (h : (o.merge shard ⟨s, c⟩).1 = .ok merged) :
    let united := merged.fragment.entries.filter fun e => !e.path.isDex
    united = firstsBy (·.path) (plainEntries (o.arrange shard.fragments)) ∧
    (united.map (·.path)).Nodup ∧
    ∀ q, q ∈ united.map (·.path) ↔ q.isDex = false ∧ ∃ f ∈ shard.fragments, q ∈ f.paths := by
  intro united
  have hbench : (Workbench.mk s c).cache.Holds fun _ => True := hc.holds
  obtain ⟨g, l, hread, hfragment⟩ := (hbench.merge o shard).2 merged h
  have hunited : united = firstsBy (·.path) (plainEntries (o.arrange shard.fragments)) := by
    rw [← Gathered.plain_fragmentWith hread l, ← hfragment]
  rw [hunited]
  refine ⟨rfl, nodup_firstsBy _ _, ?_⟩
  intro q
  rw [mem_map_firstsBy, mem_paths_plainEntries]
  simp only [ModuleOrder.mem_arrange]

/-- Whatever was merged before on the same cache, a shard of intact contents fails to be merged for
one of four reasons, looked for in this order: it has no fragments; a module is not in the order of
modules; two fragments have different values along one dimension; two entries at one path, not that
of a code segment, have different bytes.  Otherwise there is one entry for each path that is not
that of a code segment, the first there if the fragments are taken in the order of their modules,
those of one module in the order of the shard. -/
theorem MergeCache.Reachable.merge_ends (hc : c.Reachable) (o : ModuleOrder) (shard : Shard)
    (s : Storage) (hintact : ∀ x ∈ shard.contents, x.Intact s)
    (hfree : CollisionFree (readableBytes s shard.contents)) :
    let result := (o.merge shard ⟨s, c⟩).1
    let known := ∀ f ∈ shard.fragments, f.module ∈ o.names
    let differ := ∃ f ∈ shard.fragments, ∃ f' ∈ shard.fragments, ∃ d v w,
      f.targeting.get? d = some v ∧ f'.targeting.get? d = some w ∧ v ≠ w
    (result = .error (.emptyShard shard.index) ↔ shard.fragments = []) ∧
    ((∃ name, result = .error (.unknownModule name)) ↔ ¬ known) ∧
    ((∃ d name first second,
        result = .error (.conflictingTargeting d shard.index name first second)) ↔
      known ∧ differ) ∧
    ((∃ q first second, result = .error (.conflictingEntry q shard.index first second)) ↔
      known ∧ ¬ differ ∧ ∃ q, shard.Conflicts s q) ∧
    ((∃ merged, result = .ok merged) ↔
      shard.fragments ≠ [] ∧ known ∧ ¬ differ ∧ ∀ q, ¬ shard.Conflicts s q) ∧
    ∀ merged, result = .ok merged → ∃ arranged : List Fragment,
      arranged.Perm shard.fragments ∧
      arranged.Pairwise (fun f f' => o.position f.module ≤ o.position f'.module) ∧
      (∀ name, arranged.filter (·.module = name) = shard.fragments.filter (·.module = name)) ∧
      let united := merged.fragment.entries.filter fun e => !e.path.isDex
      united = firstsBy (·.path) ((arranged.flatMap (·.entries)).filter fun e => !e.path.isDex) ∧
      (united.map (·.path)).Nodup ∧
      ∀ q, q ∈ united.map (·.path) ↔ q.isDex = false ∧ ∃ f ∈ shard.fragments, q ∈ f.paths := by
  intro result known differ
  have hdiffer : ¬ shard.TargetingsAgree ↔ differ := Shard.not_targetingsAgree_iff
  rw [← hdiffer, not_not]
  rcases ModuleOrder.gather_ends hintact hfree o with ⟨hempty, hread⟩ | ⟨f, hf, hname, hread⟩ |
    ⟨hnonempty, (hknown : known), ⟨hdisagree, d, name, first, second, hread⟩ |
      ⟨hagree, ⟨q, first, second, hread, hconflict⟩ | ⟨hnone, g, hread⟩⟩⟩
  · have hresult : result = _ := ModuleOrder.merge_of_gather_eq_error hread
    have hknown : known := by simp [known, hempty]
    have hagree : shard.TargetingsAgree := by simp [Shard.TargetingsAgree, hempty]
    have hnone : ∀ q, ¬ shard.Conflicts s q := by simp [Shard.Conflicts, hempty]
    simp [hresult, hempty, hknown, hagree, hnone]
  · have hresult : result = _ := ModuleOrder.merge_of_gather_eq_error hread
    have hnonempty : shard.fragments ≠ [] := List.ne_nil_of_mem hf
    have hunknown : ¬ known := fun hknown => hname (hknown f hf)
    simp [hresult, hnonempty, hunknown]
  · have hresult : result = _ := ModuleOrder.merge_of_gather_eq_error hread
    simp [hresult, hnonempty, hknown, hdisagree]
  · have hresult : result = _ := ModuleOrder.merge_of_gather_eq_error hread
    have hsome : ∃ q, shard.Conflicts s q := ⟨q, hconflict⟩
    simp [hresult, hnonempty, hknown, hagree, hsome]
  · have hresult : result = _ := ModuleOrder.merge_of_gather_eq_ok hread
    refine ⟨by simp [hresult, hnonempty], by simp [hresult, hknown], by simp [hresult, hagree],
      by simp [hresult, hnone], by simp [hresult, hnonempty, hknown, hagree, hnone], ?_⟩
    intro merged hmerged
    exact ⟨o.arrange shard.fragments, sortBy_perm _ _, o.pairwise_position_arrange _,
      o.filter_module_arrange _, hc.united_of_merge hmerged⟩

/-- Two modules with an asset of one byte each, which is 7 in the first, and code in one of them. -/
def assetFragments (x : UInt8) : List Fragment :=
  [.ofMaster "feature" ⟨"app", ∅, ∅⟩ [⟨⟨"assets/a"⟩, ⟨4, .memory [7]⟩, .uncompressed⟩,
      ⟨.dex 1, ⟨1, .memory [1]⟩, .compressed⟩],
   .ofMaster "base" ⟨"app", ∅, ∅⟩ [⟨⟨"assets/a"⟩, ⟨5, .memory [x]⟩, .compressed⟩]]

/-- On a cache that was used before, the assets of two modules are united if they have the same
byte, and conflict otherwise. -/
theorem merge_ends_assetFragments :
    twinCache.Reachable ∧
    (∀ fs ∈ [assetFragments 7, assetFragments 8],
      (∀ c ∈ (Shard.mk 1 [] fs).contents, c.Intact {}) ∧
      CollisionFree (readableBytes {} (Shard.mk 1 [] fs).contents)) ∧
    (∃ merged, (ModuleOrder.merge ⟨["base", "feature"], none⟩ ⟨1, [], assetFragments 7⟩
      ⟨{}, twinCache⟩).1 = .ok merged) ∧
    ∃ q first second, (ModuleOrder.merge ⟨["base", "feature"], none⟩ ⟨1, [], assetFragments 8⟩
      ⟨{}, twinCache⟩).1 = .error (.conflictingEntry q 1 first second) := by
  have hcache : twinCache.Reachable := .merge .empty _ _ _
  have hcontents : ∀ fs ∈ [assetFragments 7, assetFragments 8],
      (∀ c ∈ (Shard.mk 1 [] fs).contents, c.Intact {}) ∧
      CollisionFree (readableBytes {} (Shard.mk 1 [] fs).contents) := by
    have hmemory : ∀ fs ∈ [assetFragments 7, assetFragments 8],
        ∀ c ∈ (Shard.mk 1 [] fs).contents, c.backingFile? = none := by decide
    have hfree : ∀ fs ∈ [assetFragments 7, assetFragments 8],
        CollisionFree (readableBytes {} (Shard.mk 1 [] fs).contents) := by decide +kernel
    intro fs hfs
    refine ⟨?_, hfree fs hfs⟩
    intro c hc
    exact Content.intact_of_backingFile?_eq_none (hmemory fs hfs c hc) rfl
  have hagree : ∀ fs ∈ [assetFragments 7, assetFragments 8], ¬ ∃ f ∈ fs, ∃ f' ∈ fs, ∃ d v w,
      f.targeting.get? d = some v ∧ f'.targeting.get? d = some w ∧ v ≠ w := by
    have hmaster : ∀ fs ∈ [assetFragments 7, assetFragments 8], ∀ f ∈ fs,
        f.targeting = .master := by decide
    rintro fs hfs ⟨f, hf, f', -, d, v, w, hv, -⟩
    rw [hmaster fs hfs f hf, Targeting.get?_master] at hv
    cases hv
  have hsame : ∀ f ∈ assetFragments 7, ∀ e ∈ f.entries, ∀ f' ∈ assetFragments 7,
      ∀ e' ∈ f'.entries, e'.path = e.path → e.content.read {} = e'.content.read {} := by decide
  obtain ⟨hintact, hfree⟩ := hcontents (assetFragments 7) (by simp)
  obtain ⟨hintact', hfree'⟩ := hcontents (assetFragments 8) (by simp)
  obtain ⟨-, -, -, -, hok, -⟩ :=
    hcache.merge_ends ⟨["base", "feature"], none⟩ ⟨1, [], assetFragments 7⟩ {} hintact hfree
  obtain ⟨-, -, -, hconflict, -, -⟩ :=
    hcache.merge_ends ⟨["base", "feature"], none⟩ ⟨1, [], assetFragments 8⟩ {} hintact' hfree'
  refine ⟨hcache, hcontents, hok.2 ⟨?_, by decide, hagree _ (by simp), ?_⟩,
    hconflict.2 ⟨by decide, hagree _ (by simp), ⟨"assets/a"⟩, by decide⟩⟩
  · simp [assetFragments]
  · rintro q ⟨-, f, hf, e, he, rfl, f', hf', e', he', hpath, hread⟩
    exact hread (hsame f hf e he f' hf' e' he' hpath)

end BundlePackaging
