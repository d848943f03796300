import BundlePackaging.Proofs.CacheHistory
import BundlePackaging.Proofs.SegmentOrder

/-!
# The cache is transparent

A key is all that connects a request with the code segments that it gets, and those may have been
computed for another shard.  In one order of modules the key tells the contents of the segments and
their order, so what a request gets shows the same bytes at the same paths as what it would have
computed.

## Main definitions

* `Fragment.shown` — what one sees of a fragment who reads its entries.
* `Shard.WellPosed` — a shard of which names and digests tell apart what they should.
* `ModuleOrder.hashed` — the texts of which merging a shard takes digests.

## Main results

* `shown_renumber_of_key_eq` — equal keys give the same bytes at the same paths.
* `map_shown_mergeAll` — **requests that share a cache are answered as on fresh caches.**
-/

namespace BundlePackaging

variable {o : ModuleOrder} {s : Storage} {shard : Shard}

/-! ### What is seen and what is asked -/

/-- What one sees of a fragment who reads its entries: all but how entries are held and stored. -/
def Fragment.shown (s : Storage) (f : Fragment) :
    Fragment × List (EntryPath × Except FileError (List UInt8)) :=
  ({ f with entries := [] }, f.entries.map fun e => (e.path, e.content.read s))

/-- The contents of a shard did not change, its modules have names without character zero, and no
module has two code segments with different bytes at one path. -/
structure Shard.WellPosed (s : Storage) (shard : Shard) : Prop where
  /-- No digest of other bytes is stored for a content. -/
  steady : ∀ c ∈ shard.contents, c.Steady s
  /-- No name has the character zero. -/
  names : ∀ f ∈ shard.fragments, '\x00' ∉ f.module.toList
  /-- The code segments of a module at one path have the same bytes. -/
  segments : ∀ f ∈ shard.fragments, ∀ f' ∈ shard.fragments, f.module = f'.module →
    ∀ e ∈ f.entries, ∀ e' ∈ f'.entries, e.path = e'.path → e.path.isDex →
      ∀ x y, e.content.read s = .ok x → e'.content.read s = .ok y → x = y

/-- The texts of which merging a shard takes digests: the text of its key, and its contents. -/
def ModuleOrder.hashed (o : ModuleOrder) (s : Storage) (shard : Shard) : List (List UInt8) :=
  keyText (o.shardSegments s shard) :: readableBytes s shard.contents

theorem ModuleOrder.keyTexts_subset_hashed (o : ModuleOrder) (s : Storage) (shards : List Shard) :
    o.keyTexts s shards ⊆ shards.flatMap (o.hashed s) := by
  intro x hx
  obtain ⟨shard, hshard, rfl⟩ := List.mem_map.1 hx
  exact List.mem_flatMap.2 ⟨shard, hshard, List.mem_cons_self⟩

theorem Shard.WellPosed.onePerPath (h : shard.WellPosed s) :
    CodeSegment.OnePerPath (o.shardSegments s shard) := by
  intro a ha b hb hmodule hpath
  obtain ⟨f, hf, e, he, i, x, hi, hx, rfl⟩ := ModuleOrder.mem_shardSegments.1 ha
  obtain ⟨f', hf', e', he', j, y, -, hy, rfl⟩ := ModuleOrder.mem_shardSegments.1 hb
  have hdex : e.path.isDex := Option.isSome_iff_exists.2 ⟨i, hi⟩
  exact congrArg Digest.ofContent (h.segments f hf f' hf' hmodule e he e' he' hpath hdex x y hx hy)

/-- A segment's content is among those that are hashed, and the segment has its digest. -/
theorem ModuleOrder.exists_bytes_of_mem_shardSegments {a : CodeSegment}
    (h : a ∈ o.shardSegments s shard) : ∃ bytes ∈ o.hashed s shard,
      a.entry.content.read s = .ok bytes ∧ a.digest = .ofContent bytes := by
  obtain ⟨f, hf, e, he, i, bytes, -, hread, rfl⟩ := mem_shardSegments.1 h
  refine ⟨bytes, List.mem_cons_of_mem _ (mem_readableBytes.2 ⟨e.content, ?_, hread⟩), hread, rfl⟩
  exact Shard.mem_contents.2 ⟨f, hf, e, he, rfl⟩

/-! ### What is seen of segments -/

/-- What is seen of renumbered segments rests on the digests of those that are kept. -/
theorem shown_renumber {l l' : List CodeSegment}
    (hdigests : (orderedSegments l).map CodeSegment.digest =
      (orderedSegments l').map CodeSegment.digest)
    (hbytes : ∀ a ∈ l, ∀ b ∈ l', a.digest = b.digest →
      a.entry.content.read s = b.entry.content.read s) :
    (renumber l).map (fun e => (e.path, e.content.read s)) =
      (renumber l').map fun e => (e.path, e.content.read s) := by
  have hreads := map_eq_map_of_map_eq hdigests fun a ha b hb =>
    hbytes a (mem_of_mem_orderedSegments ha) b (mem_of_mem_orderedSegments hb)
  -- paths are given by places, and bytes by the list of bytes
  have hshown (m : List CodeSegment) : (renumber m).map (fun e => (e.path, e.content.read s)) =
      ((orderedSegments m).map fun a => a.entry.content.read s).zipIdx.map fun x =>
        (EntryPath.dex ((x.2 + 1) % UInt32.size), x.1) := by
    unfold renumber
    rw [List.map_map, List.zipIdx_map, List.map_map]
    rfl
  rw [hshown, hshown, hreads]

/-- Equal keys of requests give the same bytes at the same paths. -/
theorem shown_renumber_of_key_eq {shards : List Shard} (h : ∀ shard ∈ shards, shard.WellPosed s)
    (hfree : CollisionFree (shards.flatMap (o.hashed s))) {l l' : List CodeSegment}
    (hl : o.Requested s shards l) (hl' : o.Requested s shards l')
    (hkey : MergeKey.ofSegments l = .ofSegments l') :
    (renumber l).map (fun e => (e.path, e.content.read s)) =
      (renumber l').map fun e => (e.path, e.content.read s) := by
  have hparts := hl.mem_parts_iff hl' (fun x hx => (h x hx).names)
    (hfree.subset (ModuleOrder.keyTexts_subset_hashed o s shards)) hkey
  have hplaced := hl.placed
  have hplaced' := hl'.placed
  obtain ⟨shard, hshard, -, rfl⟩ := hl
  obtain ⟨shard', hshard', -, rfl⟩ := hl'
  -- equal parts give the same digests in the same order, and equal digests come of equal bytes
  refine shown_renumber
    (map_digest_orderedSegments hplaced hplaced' (h shard hshard).onePerPath hparts) ?_
  intro a ha b hb hdigest
  obtain ⟨x, hx, hreadx, hdx⟩ := ModuleOrder.exists_bytes_of_mem_shardSegments ha
  obtain ⟨y, hy, hready, hdy⟩ := ModuleOrder.exists_bytes_of_mem_shardSegments hb
  rw [hdx, hdy] at hdigest
  rw [hreadx, hready, hfree x (List.mem_flatMap.2 ⟨shard, hshard, hx⟩) y
    (List.mem_flatMap.2 ⟨shard', hshard', hy⟩) hdigest]

/-! ### Histories -/

theorem Gathered.shown_fragmentWith {g : Gathered} {es es' : List Entry}
    (h : es.map (fun e => (e.path, e.content.read s)) =
      es'.map fun e => (e.path, e.content.read s)) :
    (g.fragmentWith o es).shown s = (g.fragmentWith o es').shown s := by
  unfold Fragment.shown fragmentWith
  simp only [Fragment.ofMaster, List.map_append, h]

/-- One merge on a sound workbench shows what it shows on a fresh one. -/
theorem Workbench.Sound.shown_merge {shards : List Shard} {w : Workbench} {C : Set Content}
    (hw : w.Sound C s (o.Requested s shards)) (hs : ∀ c ∈ C, c.Steady s)
    (h : ∀ shard ∈ shards, shard.WellPosed s)
    (hfree : CollisionFree (shards.flatMap (o.hashed s))) (hshard : shard ∈ shards)
    (hC : ∀ c ∈ shard.contents, c ∈ C) :
    (o.merge shard w).2.Sound C s (o.Requested s shards) ∧
      (o.merge shard w).1.map (·.fragment.shown s) =
        (o.merge shard { storage := s }).1.map (·.fragment.shown s) := by
  have hrequested : ∀ g, (o.gather shard s).1 = .ok g → o.Requested s shards g.union.segments :=
    fun g hg => ModuleOrder.requested_of_gather hs hshard hC hg
  obtain ⟨hafter, ⟨fault, hread, hmerge⟩ | ⟨g, merged, l, hread, hmerge, hl, hkey, hfragment⟩⟩ :=
    hw.merge hC hrequested
  · refine ⟨hafter, ?_⟩
    have hfresh : (o.merge shard { storage := s }).1 = .error fault :=
      ModuleOrder.merge_of_gather_eq_error hread
    rw [hmerge, hfresh]
  · refine ⟨hafter, ?_⟩
    have hfresh : (o.merge shard { storage := s }).1 = .ok (g.fuse o shard .empty).1 :=
      ModuleOrder.merge_of_gather_eq_ok hread
    have hbytes := shown_renumber_of_key_eq h hfree (hrequested g hread) hl hkey
    have hshown : merged.fragment.shown s = (g.fuse o shard .empty).1.fragment.shown s := by
      rw [hfragment, g.fragment_fuse_empty]
      exact Gathered.shown_fragmentWith hbytes.symm
    rw [hmerge, hfresh]
    exact congrArg Except.ok hshown

/-- Requests that share a cache, empty at first, are answered as on fresh caches: with the same
faults, and with fragments that show the same bytes at the same paths. -/
theorem map_shown_mergeAll (o : ModuleOrder) (shards : List Shard) (s : Storage)
    (h : ∀ shard ∈ shards, shard.WellPosed s)
    (hfree : CollisionFree (shards.flatMap (o.hashed s))) :
    (mergeAll (shards.map (o, ·)) { storage := s }).1.map (·.map (·.fragment.shown s)) =
      shards.map fun shard => (o.merge shard { storage := s }).1.map (·.fragment.shown s) := by
  have hs : ∀ c ∈ contentsOf shards, c.Steady s := by
    rintro c ⟨shard, hshard, hc⟩
    exact (h shard hshard).steady c hc
  -- the invariant speaks of all requests of the history, the induction is on those still to come
  have hrun : ∀ rest ⊆ shards, ∀ w : Workbench,
      w.Sound (contentsOf shards) s (o.Requested s shards) →
      (mergeAll (rest.map (o, ·)) w).1.map (·.map (·.fragment.shown s)) =
        rest.map fun shard => (o.merge shard { storage := s }).1.map (·.fragment.shown s) := by
    intro rest
    induction rest with
    | nil => intro _ w _; rfl
    | cons shard rest ih =>
      intro hrest w hw
      obtain ⟨hshard, hrest⟩ := List.cons_subset.1 hrest
      obtain ⟨hafter, hanswer⟩ := hw.shown_merge hs h hfree hshard
        fun c hc => ⟨shard, hshard, hc⟩
      rw [List.map_cons, List.map_cons, mergeAll, List.map_cons, hanswer, ih hrest _ hafter]
  exact hrun shards (List.Subset.refl _) _ (.fresh hs)

/-- The code of two modules, with one content in both and one in the second alone. -/
def twinFragments : List Fragment :=
  [.ofMaster "base" ⟨"app", ∅, ∅⟩ [⟨.dex 1, ⟨1, .memory [1]⟩, .compressed⟩],
    .ofMaster "feature" ⟨"app", ∅, ∅⟩ [⟨.dex 1, ⟨2, .memory [1]⟩, .compressed⟩,
      ⟨.dex 2, ⟨3, .memory [2, 3]⟩, .uncompressed⟩]]

/-- Two shards with the same code, which list their modules in different orders. -/
def twinShards : List Shard := [⟨0, [], twinFragments⟩, ⟨1, [], twinFragments.reverse⟩]

theorem wellPosed_twinShards : ∀ shard ∈ twinShards, shard.WellPosed {} := by
  intro shard hshard
  have hsame : ∀ shard ∈ twinShards, ∀ f ∈ shard.fragments, ∀ f' ∈ shard.fragments,
      f.module = f'.module → ∀ e ∈ f.entries, ∀ e' ∈ f'.entries, e.path = e'.path →
        e.content = e'.content := by decide
  refine ⟨fun c _ => Content.steady_of_digest?_eq_none rfl, ?_, ?_⟩
  · revert shard
    decide
  · intro f hf f' hf' hmodule e he e' he' hpath _ x y hx hy
    rw [hsame shard hshard f hf f' hf' hmodule e he e' he' hpath, hy] at hx
    exact (Except.ok.inj hx).symm

/-- Of two shards with the same code the second finds what the first has computed. -/
theorem map_shown_mergeAll_twinShards :
    (mergeAll (twinShards.map (⟨["base", "feature"], none⟩, ·)) {}).2.cache.hits = 1 ∧
      (mergeAll (twinShards.map (⟨["base", "feature"], none⟩, ·)) { storage := {} }).1.map
          (·.map (·.fragment.shown {})) =
        twinShards.map fun shard =>
          (ModuleOrder.merge ⟨["base", "feature"], none⟩ shard { storage := {} }).1.map
            (·.fragment.shown {}) := by
  refine ⟨by decide +kernel, ?_⟩
  exact map_shown_mergeAll ⟨["base", "feature"], none⟩ twinShards {} wellPosed_twinShards
    (by decide +kernel)

end BundlePackaging
