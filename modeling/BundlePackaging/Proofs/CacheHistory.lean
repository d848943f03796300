import BundlePackaging.Proofs.Uniting
import Mathlib.Data.List.Dedup

/-!
# What a cache has seen

Two invariants of a cache of renumbered code segments, each kept by every request.  The first is
about values: what is kept under a key was computed from segments that have this key, though perhaps
from other segments than those of the request that finds it.  The second is about counters: each key
that was asked for missed once and is kept once, and every other request hit.

## Main definitions

* `MergeCache.Holds` — everything kept was computed from segments of a given kind.
* `MergeCache.Tally` — the counters fit the keys that were asked for.
* `Workbench.Sound` — the invariant of a workbench on which shards are merged.

## Main results

* `MergeCache.Holds.getOrMerge`, `MergeCache.Tally.getOrMerge` — a request keeps the invariants.
* `MergeCache.Tally.eq_of_perm` — the keys that were asked for determine the counters.
* `ModuleOrder.merge_cases` — a merge fails as reading the shard fails, or fuses what was read.
* `Workbench.Sound.merge` — a merge answers as it would on a fresh workbench, up to the segments
  that the key stands for. -/

namespace BundlePackaging

variable {P : List CodeSegment → Prop} {asked asked' : List MergeKey} {c c' : MergeCache}
  {segments : List CodeSegment}

/-! ### One member of a list -/

/-- What is read off one member and what is read off the others are together what is read off
all. -/
theorem filterMap_middle_perm {α β : Type} (f : α → Option β) (front rest : List α) (a : α) :
    ((front ++ a :: rest).filterMap f).Perm ((f a).toList ++ (front ++ rest).filterMap f) := by
  have hmiddle : (front ++ a :: rest).Perm (a :: (front ++ rest)) := List.perm_middle
  refine (hmiddle.filterMap f).trans (.of_eq ?_)
  rw [List.filterMap_cons]
  cases f a <;> rfl

/-! ### Kept values -/

namespace MergeCache

/-- Filling a key that is free leaves what is kept under other keys. -/
theorem lookUp?_fill_of_eq_some {key k : MergeKey} {entries : List Entry}
    (hfree : c.lookUp? key = none) (h : c.lookUp? k = some entries) (others : List Entry) :
    (c.fill key others).lookUp? k = some entries := by
  rw [lookUp?_fill, if_neg, h]
  rintro rfl
  rw [hfree] at h
  cases h

/-- What is kept under a key is the renumbering of segments that `P` holds of and that have the
key. -/
def Holds (P : List CodeSegment → Prop) (c : MergeCache) : Prop :=
  ∀ key entries, c.lookUp? key = some entries →
    ∃ l, P l ∧ key = .ofSegments l ∧ entries = renumber l

theorem holds_empty : empty.Holds P := by
  intro key entries h
  cases h

theorem Holds.countHit (h : c.Holds P) : c.countHit.Holds P := h

theorem Holds.fill (h : c.Holds P) (hP : P segments) :
    (c.fill (.ofSegments segments) (renumber segments)).Holds P := by
  intro key entries hlook
  rw [lookUp?_fill] at hlook
  split at hlook
  · next hkey => exact ⟨segments, hP, hkey, (Option.some.inj hlook).symm⟩
  · exact h key entries hlook

/-- A request for the key of some segments answers with a renumbering of segments that have this
key. -/
theorem Holds.getOrMerge (h : c.Holds P) (hP : P segments) :
    (c.getOrMerge (.ofSegments segments) fun _ => renumber segments).2.2.Holds P ∧
      ∃ l, P l ∧ MergeKey.ofSegments segments = .ofSegments l ∧
        (c.getOrMerge (.ofSegments segments) fun _ => renumber segments).1 = renumber l := by
  unfold MergeCache.getOrMerge
  cases hlook : c.lookUp? (.ofSegments segments) with
  | some entries => exact ⟨h.countHit, h _ _ hlook⟩
  | none => exact ⟨h.fill hP, segments, hP, rfl, rfl⟩

/-! ### Counters -/

/-- The counters and the keys kept are those of a history in which the keys `asked` were asked
for. -/
structure Tally (asked : List MergeKey) (c : MergeCache) : Prop where
  /-- Every request was counted. -/
  answered : c.hits + c.misses = asked.length
  /-- What was missed is kept. -/
  missed : c.misses = c.size
  /-- No key is kept twice. -/
  nodup : (c.kept.map (·.1)).Nodup
  /-- The keys kept are those that were asked for. -/
  mem_kept : ∀ key, key ∈ c.kept.map (·.1) ↔ key ∈ asked

theorem tally_empty : empty.Tally [] := ⟨rfl, rfl, .nil, fun _ => Iff.rfl⟩

theorem Tally.of_perm (h : c.Tally asked) (hp : asked.Perm asked') : c.Tally asked' :=
  ⟨h.answered.trans hp.length_eq, h.missed, h.nodup, fun key => (h.mem_kept key).trans hp.mem_iff⟩

theorem lookUp?_eq_none {key : MergeKey} : c.lookUp? key = none ↔ key ∉ c.kept.map (·.1) := by
  unfold lookUp?
  rw [List.lookup_eq_none_iff]
  simp only [List.mem_map, not_exists, not_and, bne_iff_ne]
  exact ⟨fun h e he hkey => h e he hkey.symm, fun h e he hkey => h e he hkey.symm⟩

theorem Tally.countHit {key : MergeKey} (h : c.Tally asked) (hkey : c.lookUp? key ≠ none) :
    c.countHit.Tally (key :: asked) := by
  have hasked : key ∈ asked := (h.mem_kept key).1 (not_not.1 (mt lookUp?_eq_none.2 hkey))
  refine ⟨?_, h.missed, h.nodup, fun k => ?_⟩
  · have hanswered := h.answered
    simp only [MergeCache.countHit, List.length_cons]
    omega
  · rw [List.mem_cons]
    refine (h.mem_kept k).trans ⟨.inr, ?_⟩
    rintro (rfl | hk)
    · exact hasked
    · exact hk

theorem Tally.fill {key : MergeKey} (h : c.Tally asked) (hkey : c.lookUp? key = none)
    (entries : List Entry) : (c.fill key entries).Tally (key :: asked) := by
  refine ⟨?_, ?_, List.nodup_cons.2 ⟨lookUp?_eq_none.1 hkey, h.nodup⟩, fun k => ?_⟩
  · have hanswered := h.answered
    simp only [MergeCache.fill, List.length_cons]
    omega
  · have hmissed := h.missed
    simp only [size, MergeCache.fill, List.length_cons] at *
    omega
  · simp only [MergeCache.fill, List.map_cons, List.mem_cons, h.mem_kept k]

theorem Tally.getOrMerge (h : c.Tally asked) (key : MergeKey) (merge : Unit → List Entry) :
    (c.getOrMerge key merge).2.2.Tally (key :: asked) := by
  unfold MergeCache.getOrMerge
  cases hlook : c.lookUp? key with
  | some entries => exact h.countHit (by simp [hlook])
  | none => exact h.fill hlook _

/-- As many keys are kept as there are different ones that were asked for. -/
theorem Tally.size_eq (h : c.Tally asked) : c.size = asked.dedup.length := by
  have hkeys : (c.kept.map (·.1)).Perm asked.dedup := by
    refine (List.perm_ext_iff_of_nodup h.nodup (List.nodup_dedup _)).2 fun key => ?_
    rw [h.mem_kept, List.mem_dedup]
  simpa [size] using hkeys.length_eq

/-- Histories that asked for the same keys, in whatever order, end with the same counters. -/
theorem Tally.eq_of_perm (h : c.Tally asked) (h' : c'.Tally asked') (hp : asked.Perm asked') :
    c.hits = c'.hits ∧ c.misses = c'.misses ∧ c.size = c'.size := by
  -- misses are the keys kept, and those are the keys asked for, each once
  have hsize : c.size = c'.size := by rw [h.size_eq, h'.size_eq, hp.dedup.length_eq]
  have hasked := hp.length_eq
  have h₁ := h.answered
  have h₂ := h'.answered
  have h₃ := h.missed
  have h₄ := h'.missed
  omega

end MergeCache

/-! ### What is read and what is fused -/

namespace Gathered

variable {g : Gathered}

/-- The key that the segments ask the cache for; without segments the cache is not asked. -/
def key? (g : Gathered) : Option MergeKey :=
  if g.union.segments.isEmpty then none else some (.ofSegments g.union.segments)

theorem segments_eq (g : Gathered) (c : MergeCache) :
    g.union.segments = [] ∧ g.key? = none ∧ g.segments c = ([], [], c) ∨
      g.key? = some (.ofSegments g.union.segments) ∧
        (g.segments c).1 = (c.getOrMerge (.ofSegments g.union.segments) fun _ =>
          renumber g.union.segments).1 ∧
        (g.segments c).2.2 = (c.getOrMerge (.ofSegments g.union.segments) fun _ =>
          renumber g.union.segments).2.2 := by
  unfold segments key?
  by_cases hempty : g.union.segments.isEmpty
  · rw [if_pos hempty, if_pos hempty]
    exact .inl ⟨List.isEmpty_iff.1 hempty, rfl, rfl⟩
  · rw [if_neg hempty, if_neg hempty]
    refine .inr ⟨rfl, ?_⟩
    simp only
    rcases c.getOrMerge (.ofSegments g.union.segments) fun _ => renumber g.union.segments with
      ⟨entries, _ | _, c'⟩
    · exact ⟨rfl, rfl⟩
    · exact ⟨rfl, rfl⟩

/-- The segments of a package are a renumbering of segments with the key of those that were read. -/
theorem segments_of_holds (h : c.Holds P) (hP : P g.union.segments) :
    (g.segments c).2.2.Holds P ∧ ∃ l, P l ∧
      MergeKey.ofSegments g.union.segments = .ofSegments l ∧ (g.segments c).1 = renumber l := by
  rcases g.segments_eq c with ⟨hempty, -, hanswer⟩ | ⟨-, hentries, hcache⟩
  · rw [hanswer]
    exact ⟨h, g.union.segments, hP, rfl, by rw [hempty]; rfl⟩
  · rw [hentries, hcache]
    exact h.getOrMerge hP

theorem segments_tally (h : c.Tally asked) : (g.segments c).2.2.Tally (g.key?.toList ++ asked) := by
  rcases g.segments_eq c with ⟨-, hnone, hanswer⟩ | ⟨hkey, -, hcache⟩
  · rw [hanswer, hnone]
    exact h
  · rw [hcache, hkey]
    exact h.getOrMerge _ _

/-- The merged fragment, given its code segments. -/
def fragmentWith (g : Gathered) (o : ModuleOrder) (segments : List Entry) : Fragment :=
  { Fragment.ofMaster (g.representative o.base).module (g.representative o.base).manifest
      (g.union.plain.map (·.entry) ++ segments) with targeting := g.targeting }

theorem fragment_fuse (g : Gathered) (o : ModuleOrder) (shard : Shard) (c : MergeCache) :
    (g.fuse o shard c).1.fragment = g.fragmentWith o (g.segments c).1 := rfl

theorem segments_empty (g : Gathered) : (g.segments .empty).1 = renumber g.union.segments := by
  rcases g.segments_eq .empty with ⟨hempty, -, hanswer⟩ | ⟨-, hentries, -⟩
  · rw [hanswer, hempty]
    rfl
  · rw [hentries]
    rfl

end Gathered

/-! ### Workbenches -/

variable {C : Set Content} {s : Storage} {o : ModuleOrder} {shard : Shard} {w : Workbench}

/-- A workbench on which shards with contents in `C` and segments that `P` holds of were merged,
with the files and the bytes that `s` shows. -/
structure Workbench.Sound (C : Set Content) (s : Storage) (P : List CodeSegment → Prop)
    (w : Workbench) : Prop where
  /-- The files are the same, and no digest of other bytes was stored. -/
  storage : w.storage.Alike C s
  /-- What is kept was computed from segments that `P` holds of. -/
  cache : w.cache.Holds P

namespace Workbench.Sound

theorem fresh (h : ∀ x ∈ C, x.Steady s) : Workbench.Sound C s P { storage := s } :=
  ⟨.refl h, MergeCache.holds_empty⟩

theorem gather (h : w.Sound C s P) (hC : ∀ x ∈ shard.contents, x ∈ C) :
    (o.gather shard w.storage).1 = (o.gather shard s).1 ∧
      Workbench.Sound C s P { w with storage := (o.gather shard w.storage).2 } := by
  obtain ⟨heq, hafter⟩ := ModuleOrder.restsOn_gather (o := o) hC h.storage
  exact ⟨heq, hafter, h.cache⟩

theorem fuse {g : Gathered} (h : w.Sound C s P) (hP : P g.union.segments) (o : ModuleOrder)
    (shard : Shard) :
    Workbench.Sound C s P { w with cache := (g.fuse o shard w.cache).2 } ∧ ∃ l, P l ∧
      MergeKey.ofSegments g.union.segments = .ofSegments l ∧
        (g.fuse o shard w.cache).1.fragment = g.fragmentWith o (renumber l) := by
  obtain ⟨hcache, l, hl, hkey, hentries⟩ := Gathered.segments_of_holds h.cache hP
  refine ⟨⟨h.storage, hcache⟩, l, hl, hkey, ?_⟩
  rw [Gathered.fragment_fuse, hentries]

end Workbench.Sound

/-- A merge fails as reading the shard fails, and leaves the cache as it is; or it fuses what was
read. -/
theorem ModuleOrder.merge_cases (o : ModuleOrder) (shard : Shard) (w : Workbench) :
    (∃ fault, (o.gather shard w.storage).1 = .error fault ∧
      o.merge shard w = (.error fault, { w with storage := (o.gather shard w.storage).2 })) ∨
    ∃ g, (o.gather shard w.storage).1 = .ok g ∧ o.merge shard w =
      (.ok (g.fuse o shard w.cache).1,
        ⟨(o.gather shard w.storage).2, (g.fuse o shard w.cache).2⟩) := by
  unfold merge
  rcases o.gather shard w.storage with ⟨fault | g, storage⟩
  · exact .inl ⟨fault, rfl, rfl⟩
  · exact .inr ⟨g, rfl, rfl⟩

theorem ModuleOrder.merge_of_gather_eq_error {fault : Fault}
    (h : (o.gather shard w.storage).1 = .error fault) : (o.merge shard w).1 = .error fault := by
  rcases o.merge_cases shard w with ⟨fault', hread, hmerge⟩ | ⟨g, hread, -⟩
  · rw [hread] at h
    cases h
    rw [hmerge]
  · rw [hread] at h
    cases h

theorem ModuleOrder.merge_of_gather_eq_ok {g : Gathered}
    (h : (o.gather shard w.storage).1 = .ok g) :
    (o.merge shard w).1 = .ok (g.fuse o shard w.cache).1 := by
  rcases o.merge_cases shard w with ⟨fault, hread, -⟩ | ⟨g', hread, hmerge⟩
  · rw [hread] at h
    cases h
  · rw [hread] at h
    cases h
    rw [hmerge]

/-- The key for which merging a shard asks the cache. -/
def ModuleOrder.key? (o : ModuleOrder) (s : Storage) (shard : Shard) : Option MergeKey :=
  (o.gather shard s).1.toOption.bind Gathered.key?

theorem ModuleOrder.key?_of_gather_eq_ok {g : Gathered} (h : (o.gather shard s).1 = .ok g) :
    o.key? s shard = g.key? := by
  unfold key?
  rw [h]
  rfl

theorem ModuleOrder.key?_of_gather_eq_error {fault : Fault}
    (h : (o.gather shard s).1 = .error fault) : o.key? s shard = none := by
  unfold key?
  rw [h]
  rfl

/-- A merge on a fresh workbench makes its code segments of those that were read. -/
theorem Gathered.fragment_fuse_empty (g : Gathered) (o : ModuleOrder) (shard : Shard) :
    (g.fuse o shard .empty).1.fragment = g.fragmentWith o (renumber g.union.segments) := by
  rw [fragment_fuse, segments_empty]

/-- A merge leaves the workbench sound, fails as reading the shard fails, and otherwise makes its
code segments of segments with the same key as those that were read. -/
theorem Workbench.Sound.merge (h : w.Sound C s P) (hC : ∀ x ∈ shard.contents, x ∈ C)
    (hP : ∀ g, (o.gather shard s).1 = .ok g → P g.union.segments) :
    (o.merge shard w).2.Sound C s P ∧
      ((∃ fault, (o.gather shard s).1 = .error fault ∧ (o.merge shard w).1 = .error fault) ∨
        ∃ g merged l, (o.gather shard s).1 = .ok g ∧ (o.merge shard w).1 = .ok merged ∧ P l ∧
          MergeKey.ofSegments g.union.segments = .ofSegments l ∧
            merged.fragment = g.fragmentWith o (renumber l)) := by
  obtain ⟨hanswer, hafter⟩ := h.gather (o := o) hC
  rcases o.merge_cases shard w with ⟨fault, hread, hmerge⟩ | ⟨g, hread, hmerge⟩
  · rw [hread] at hanswer
    rw [hmerge]
    exact ⟨hafter, .inl ⟨fault, hanswer.symm, rfl⟩⟩
  · rw [hread] at hanswer
    rw [hmerge]
    obtain ⟨hfused, l, hl, hkey, hfragment⟩ :=
      hafter.fuse (hP g hanswer.symm) o shard
    exact ⟨hfused, .inr ⟨g, _, l, hanswer.symm, rfl, hl, hkey, hfragment⟩⟩

end BundlePackaging
