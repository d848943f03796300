import BundlePackaging.Proofs.CacheHistory

/-!
# What merges do to the cache

Merging reads a shard in full before it asks the cache, so a merge that fails has not come to the
cache, and neither has one that found no code segments.  Every other merge asks for one key, which
either is kept and counts as a hit, or is filled and counts as a miss.  What is kept is never
replaced.  So the counters tell how many merges have asked, and for how many keys, whatever shards
were merged, in which orders of modules and with whatever files.

## Main definitions

* `MergeCall`, `MergeCall.run`, `MergeCall.runAll` — merges that share a cache.

## Main results

* `MergeCall.run_cases` — all that a merge can do to the cache.
* `MergeCall.tally_runAll` — the counters fit the keys that were asked for.
* `MergeCall.counters_of_runAll` — **failed merges leave the cache as it is, and the counters add
  up.**
-/

namespace BundlePackaging

variable {o : ModuleOrder} {shard : Shard} {s : Storage} {g : Gathered} {n : ℕ}

/-! ### Code segments of a shard -/

/-- The code segments of a union are the entries with such a path, whatever digests they have. -/
theorem Union.map_entry_segments_of_addAll {u v : Union} {cs : List Contribution}
    (h : (u.addAll n cs s).1 = .ok v) :
    v.segments.map (·.entry) =
      u.segments.map (·.entry) ++ (cs.map (·.entry)).filter (·.path.isDex) := by
  induction cs generalizing u s with
  | nil =>
    obtain rfl := Except.ok.inj h
    exact (List.append_nil _).symm
  | cons c cs ih =>
    obtain ⟨w, hw, h⟩ := of_addAll_cons_eq_ok h
    rw [ih h, List.map_cons, List.filter_cons]
    rcases of_add_eq_ok hw with ⟨i, d, hi, -, rfl⟩ | ⟨hi, -, rfl⟩ | ⟨hi, rfl, -⟩
    · simp [EntryPath.isDex, hi]
    · simp [EntryPath.isDex, hi]
    · simp [EntryPath.isDex, hi]

/-- Segments are read of those shards that have code segments. -/
theorem ModuleOrder.segments_eq_nil_iff (h : (o.gather shard s).1 = .ok g) :
    g.union.segments = [] ↔ shard.code = [] := by
  have hentries := Union.map_entry_segments_of_addAll (of_gather_eq_ok h).2.2.2
  rw [List.map_nil, List.nil_append] at hentries
  rw [← List.map_eq_nil_iff (f := CodeSegment.entry), hentries, List.eq_nil_iff_forall_not_mem,
    List.eq_nil_iff_forall_not_mem]
  -- the shard is read in the order of its modules, which has the same entries
  refine forall_congr' fun e => not_congr ?_
  rw [List.mem_filter, List.mem_map, Shard.mem_code]
  refine and_congr_left fun _ => ⟨?_, ?_⟩
  · rintro ⟨c, hc, rfl⟩
    obtain ⟨f, hf, e, he, rfl⟩ := mem_shardContributions.1 hc
    exact ⟨f, hf, he⟩
  · rintro ⟨f, hf, he⟩
    exact ⟨_, mem_shardContributions.2 ⟨f, hf, e, he, rfl⟩, rfl⟩

/-! ### One merge -/

/-- One of some merges that share a cache.  Each has an order of modules, a shard, and files and
stored digests of its own. -/
structure MergeCall where
  /-- The order of modules. -/
  order : ModuleOrder
  /-- The shard that is merged. -/
  shard : Shard
  /-- The files and the stored digests when the shard is merged. -/
  storage : Storage

namespace MergeCall

variable {asked : List MergeKey} {c : MergeCache} {call : MergeCall}

/-- What the merge ends with, and the cache after it. -/
def run (call : MergeCall) (c : MergeCache) : Except Fault Merged × MergeCache :=
  let (answer, w) := call.order.merge call.shard ⟨call.storage, c⟩
  (answer, w.cache)

/-- The key for which the merge asks the cache. -/
def key? (call : MergeCall) : Option MergeKey := call.order.key? call.storage call.shard

/-- All that a merge can do to the cache: it fails or meets no code segments, and leaves the cache
as it is; or it asks for one key, which is kept and counts as a hit, or is filled. -/
theorem run_cases (call : MergeCall) (c : MergeCache) :
    (∃ fault, call.run c = (.error fault, c) ∧ call.key? = none) ∨
    (∃ merged, call.run c = (.ok merged, c) ∧ call.shard.code = [] ∧ call.key? = none) ∨
    ∃ merged key c', call.run c = (.ok merged, c') ∧ call.shard.code ≠ [] ∧ call.key? = some key ∧
      ((c.lookUp? key ≠ none ∧ c' = c.countHit) ∨
        c.lookUp? key = none ∧ ∃ entries, c' = c.fill key entries) := by
  unfold run key?
  rcases call.order.merge_cases call.shard ⟨call.storage, c⟩ with
    ⟨fault, hread, hmerge⟩ | ⟨g, hread, hmerge⟩
  · rw [hmerge]
    exact .inl ⟨fault, rfl, ModuleOrder.key?_of_gather_eq_error hread⟩
  · have hcode := ModuleOrder.segments_eq_nil_iff hread
    rw [hmerge, ModuleOrder.key?_of_gather_eq_ok hread]
    refine .inr ?_
    rcases g.segments_eq c with ⟨hempty, hnone, hanswer⟩ | ⟨hkey, -, hcache⟩
    · refine .inl ⟨(g.fuse call.order call.shard c).1, ?_, hcode.1 hempty, hnone⟩
      show (Except.ok (g.fuse call.order call.shard c).1, (g.segments c).2.2) = _
      rw [hanswer]
    · refine .inr ⟨(g.fuse call.order call.shard c).1, _, (g.segments c).2.2, rfl, ?_, hkey, ?_⟩
      · intro hnone
        rw [Gathered.key?, hcode.2 hnone] at hkey
        cases hkey
      · rw [hcache]
        unfold MergeCache.getOrMerge
        cases hlook : c.lookUp? (.ofSegments g.union.segments) with
        | some entries => exact .inl ⟨by simp, rfl⟩
        | none => exact .inr ⟨rfl, _, rfl⟩

/-- A merge that fails leaves the cache as it is. -/
theorem cache_of_error {fault : Fault} (h : (call.run c).1 = .error fault) :
    (call.run c).2 = c := by
  rcases call.run_cases c with ⟨_, hrun, -⟩ | ⟨_, hrun, -⟩ | ⟨_, _, _, hrun, -⟩
  · rw [hrun]
  · rw [hrun]
  · rw [hrun] at h
    cases h

/-- So does one that meets no code segments. -/
theorem cache_of_code_eq_nil (h : call.shard.code = []) : (call.run c).2 = c := by
  rcases call.run_cases c with ⟨_, hrun, -⟩ | ⟨_, hrun, -⟩ | ⟨_, _, _, -, hcode, -⟩
  · rw [hrun]
  · rw [hrun]
  · exact absurd h hcode

/-- Every other merge asks for one key, which is kept and counts as a hit, or is filled. -/
theorem cache_of_code_ne_nil {merged : Merged} (h : (call.run c).1 = .ok merged)
    (hcode : call.shard.code ≠ []) : ∃ key, call.key? = some key ∧
      ((c.lookUp? key ≠ none ∧ (call.run c).2 = c.countHit) ∨
        c.lookUp? key = none ∧ ∃ entries, (call.run c).2 = c.fill key entries) := by
  rcases call.run_cases c with ⟨_, hrun, -⟩ | ⟨_, _, hnone, -⟩ | ⟨_, key, _, hrun, -, hkey, hcache⟩
  · rw [hrun] at h
    cases h
  · exact absurd hnone hcode
  · rw [hrun]
    exact ⟨key, hkey, hcache⟩

/-- What is kept is never replaced. -/
theorem lookUp?_run {key : MergeKey} {entries : List Entry} (call : MergeCall)
    (h : c.lookUp? key = some entries) : (call.run c).2.lookUp? key = some entries := by
  rcases call.run_cases c with ⟨fault, hrun, -⟩ | ⟨merged, hrun, -⟩ |
    ⟨merged, asked, c', hrun, -, -, ⟨-, rfl⟩ | ⟨hfree, others, rfl⟩⟩
  · rw [hrun, h]
  · rw [hrun, h]
  · rw [hrun]
    exact h
  · rw [hrun]
    exact MergeCache.lookUp?_fill_of_eq_some hfree h others

theorem tally_run (call : MergeCall) (h : c.Tally asked) :
    (call.run c).2.Tally (call.key?.toList ++ asked) := by
  rcases call.run_cases c with ⟨fault, hrun, hkey⟩ | ⟨merged, hrun, -, hkey⟩ |
    ⟨merged, key, c', hrun, -, hkey, ⟨hkept, rfl⟩ | ⟨hfree, entries, rfl⟩⟩
  · rwa [hrun, hkey]
  · rwa [hrun, hkey]
  · rw [hrun, hkey]
    exact h.countHit hkept
  · rw [hrun, hkey]
    exact h.fill hfree entries

/-- Merges that succeed on a shard with code segments are those that ask for a key. -/
theorem isSome_key?_iff (call : MergeCall) (c : MergeCache) :
    call.key?.isSome ↔ (call.run c).1.isOk ∧ call.shard.code ≠ [] := by
  rcases call.run_cases c with ⟨fault, hrun, hkey⟩ | ⟨merged, hrun, hcode, hkey⟩ |
    ⟨merged, key, c', hrun, hcode, hkey, -⟩
  · simp [hrun, hkey, Except.isOk, Except.toBool]
  · simp [hkey, hcode]
  · simp [hrun, hkey, hcode, Except.isOk, Except.toBool]

/-! ### Many merges -/

/-- What the merges end with, one after the other, and the cache after them. -/
def runAll : List MergeCall → MergeCache → List (Except Fault Merged) × MergeCache
  | [], c => ([], c)
  | call :: calls, c =>
    let (answer, c') := call.run c
    let (answers, c'') := runAll calls c'
    (answer :: answers, c'')

/-- The counters after some merges fit the keys that these have asked for. -/
theorem tally_runAll (calls : List MergeCall) (h : c.Tally asked) :
    (runAll calls c).2.Tally (calls.filterMap key? ++ asked) := by
  induction calls generalizing c asked with
  | nil => exact h
  | cons call calls ih =>
    refine (ih (call.tally_run h)).of_perm ?_
    rw [List.filterMap_cons]
    cases call.key? with
    | none => exact .refl _
    | some key => exact List.perm_middle

/-- As many keys were asked for as there are merges that succeeded on a shard with code segments. -/
theorem length_filterMap_key? (calls : List MergeCall) (c : MergeCache) :
    (calls.filterMap key?).length =
      (calls.zip (runAll calls c).1).countP fun x => x.2.isOk ∧ x.1.shard.code ≠ [] := by
  induction calls generalizing c with
  | nil => rfl
  | cons call calls ih =>
    have hserved := call.isSome_key?_iff c
    rw [runAll, List.zip_cons_cons, List.countP_cons, ← ih, List.filterMap_cons]
    cases hkey : call.key? with
    | none =>
      rw [hkey] at hserved
      simp [← hserved]
    | some key =>
      rw [hkey] at hserved
      simp [← hserved]

/-- Let shards be merged one after the other with one cache, empty at first, each in an order of
modules and with files of its own.  At any time as many requests have missed as there are keys kept,
and these are the keys that were asked for, each once; and hits and misses together are the merges
that succeeded on a shard with code segments.  A merge that fails, or meets no code segments, leaves
the cache as it is.  Every other merge asks for a key and counts as a hit if the key was asked for
before, and else as a miss that keeps one more key.  Nothing that is kept is replaced. -/
theorem counters_of_runAll (calls : List MergeCall) :
    let c := (runAll calls .empty).2
    let requested := calls.filterMap key?
    (c.misses = c.size ∧ (c.kept.map (·.1)).Nodup ∧ c.size = requested.dedup.length ∧
      c.hits + c.misses = (calls.zip (runAll calls .empty).1).countP
        fun x => x.2.isOk ∧ x.1.shard.code ≠ []) ∧
    ∀ call : MergeCall,
      let answer := (call.run c).1
      let c' := (call.run c).2
      ((∃ fault, answer = .error fault) → c' = c) ∧
      ((∃ merged, answer = .ok merged) → call.shard.code = [] → c' = c) ∧
      ((∃ merged, answer = .ok merged) → call.shard.code ≠ [] → ∃ key, call.key? = some key ∧
        ((key ∈ requested ∧ c'.hits = c.hits + 1 ∧ c'.misses = c.misses ∧ c'.kept = c.kept) ∨
          key ∉ requested ∧ c'.hits = c.hits ∧ c'.misses = c.misses + 1 ∧
            ∃ entries, c'.kept = (key, entries) :: c.kept)) ∧
      ∀ key entries, c.lookUp? key = some entries → c'.lookUp? key = some entries := by
  intro c requested
  have htally : c.Tally requested := by
    have hrun := tally_runAll calls MergeCache.tally_empty
    rwa [List.append_nil] at hrun
  refine ⟨⟨htally.missed, htally.nodup, htally.size_eq, ?_⟩, ?_⟩
  · exact htally.answered.trans (length_filterMap_key? calls .empty)
  · intro call answer c'
    have hrequested (key : MergeKey) : key ∈ requested ↔ c.lookUp? key ≠ none := by
      rw [Ne, MergeCache.lookUp?_eq_none, not_not, htally.mem_kept]
    refine ⟨?_, ?_, ?_, fun _ _ => call.lookUp?_run⟩
    · rintro ⟨fault, hfault⟩
      exact call.cache_of_error hfault
    · exact fun _ hcode => call.cache_of_code_eq_nil hcode
    · rintro ⟨merged, hmerged⟩ hcode
      obtain ⟨key, hkey, ⟨hkept, hafter⟩ | ⟨hfree, entries, hafter⟩⟩ :=
        call.cache_of_code_ne_nil hmerged hcode
      · refine ⟨key, hkey, .inl ⟨(hrequested key).2 hkept, ?_⟩⟩
        rw [show c' = c.countHit from hafter]
        exact ⟨rfl, rfl, rfl⟩
      · refine ⟨key, hkey, .inr ⟨fun hasked => (hrequested key).1 hasked hfree, ?_⟩⟩
        rw [show c' = c.fill key entries from hafter]
        exact ⟨rfl, rfl, entries, rfl⟩

end MergeCall
end BundlePackaging
