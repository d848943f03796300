import BundlePackaging.Proofs.Runs
import BundlePackaging.Proofs.SegmentOrder

/-!
# Scheduling of the workers of a run

The shards of a run are merged by workers that share one workbench.  A worker reads its shard, looks
its key up, and, if nothing is kept there by then, locks the key, looks again, and computes and
keeps the renumbered segments if the key is still free.  Between these steps any other worker may
take one.

A run is the sequence of steps that some schedule lists.  The invariant says of each worker that it
is as far as it would be alone, and of the cache that its counters fit the keys of the finished
shards; so at the end of a run nothing is left that could depend on the schedule.

## Main definitions

* `Worker.step`, `Pool.step`, `Pool.run` — the steps of a worker, and the run of a schedule.
* `Pool.Ended` — a run that is over: some worker failed, or all have finished.
* `ModuleOrder.package?` — the package of a shard that is merged on an empty cache.
* `Pool.Sound` — the invariant.

## Main results

* `Pool.step_cases` — a step changes nothing or one worker.
* `Pool.Sound.run` — every run keeps the invariant.
* `Pool.exists_ended` — every run can be continued to its end.
* `Pool.Sound.packages?_eq`, `Pool.Sound.tally_of_packages?` — what is there at the end.
* `packages_independent_of_schedule` — **the result of a run does not depend on the schedule.**
-/

namespace BundlePackaging

/-! ### Lists of options -/

section Options

variable {α β γ : Type}

theorem mapM_eq_none_of_mem {f : α → Option β} {l : List α} {a : α} (ha : a ∈ l)
    (hf : f a = none) : l.mapM f = none := by
  induction l with
  | nil => cases ha
  | cons b l ih =>
    rw [List.mapM_cons]
    rcases List.mem_cons.1 ha with rfl | ha
    · rw [hf]
      rfl
    · rw [ih ha]
      cases f b <;> rfl

theorem isSome_of_isSome_mapM {f : α → Option β} {l : List α} (h : (l.mapM f).isSome) :
    ∀ a ∈ l, (f a).isSome := by
  intro a ha
  by_contra hf
  rw [Option.not_isSome_iff_eq_none] at hf
  rw [mapM_eq_none_of_mem ha hf] at h
  cases h

/-- The results of a list of options are those of its members, in their order. -/
theorem forall₂_of_mapM_eq_some {f : α → Option β} {l : List α} {r : List β}
    (h : l.mapM f = some r) : List.Forall₂ (fun a b => f a = some b) l r := by
  induction l generalizing r with
  | nil =>
    obtain rfl := Option.some.inj h
    exact .nil
  | cons a l ih =>
    rw [List.mapM_cons] at h
    obtain ⟨b, hb, h⟩ := Option.bind_eq_some_iff.1 h
    obtain ⟨rest, hrest, h⟩ := Option.bind_eq_some_iff.1 h
    obtain rfl := Option.some.inj h
    exact .cons hb (ih hrest)

theorem mapM_eq_mapM_map {f : α → Option γ} {g : β → Option γ} {h : α → β} {l : List α}
    (hfg : ∀ a ∈ l, f a = g (h a)) : l.mapM f = (l.map h).mapM g := by
  induction l with
  | nil => rfl
  | cons a l ih =>
    obtain ⟨ha, hl⟩ := List.forall_mem_cons.1 hfg
    rw [List.map_cons, List.mapM_cons, List.mapM_cons, ha, ih hl]

end Options

/-! ### Workers -/

/-- How far a worker is with its shard. -/
inductive Progress where
  /-- Nothing was read. -/
  | waiting
  /-- The shard was read. -/
  | gathered (g : Gathered)
  /-- The shard was read, and its key was looked up and not found. -/
  | missed (g : Gathered)
  /-- The package is made. -/
  | finished (package : Fragment)
  /-- The shard could not be read. -/
  | failed (fault : Fault)

/-- A worker, which makes the package of one shard. -/
structure Worker where
  /-- The shard. -/
  shard : Shard
  /-- How far the worker is. -/
  progress : Progress := .waiting

namespace Worker

/-- Fuse what was read, with the segments that the cache keeps under the key or, if it keeps none,
with renumbered ones, which are kept then; and finish the package. -/
def finish (o : ModuleOrder) (chain : List Injector) (g : Gathered) (k : Worker) (w : Workbench) :
    Worker × Workbench :=
  let (merged, cache) := g.fuse o k.shard w.cache
  ({ k with progress := .finished (applyInjectors chain merged.fragment) }, { w with cache })

/-- One step of a worker: read the shard; look its key up; lock the key, look again and finish.  A
look-up that finds the key finishes at once. -/
def step (o : ModuleOrder) (chain : List Injector) (k : Worker) (w : Workbench) :
    Worker × Workbench :=
  match k.progress with
  | .waiting =>
    match o.gather k.shard w.storage with
    | (.error fault, storage) => ({ k with progress := .failed fault }, { w with storage })
    | (.ok g, storage) => ({ k with progress := .gathered g }, { w with storage })
  | .gathered g =>
    if g.key?.any fun key => (w.cache.lookUp? key).isNone then
      ({ k with progress := .missed g }, w)
    else k.finish o chain g w
  | .missed g => k.finish o chain g w
  | .finished _ | .failed _ => (k, w)

/-- The package that a worker has made. -/
def package? (k : Worker) : Option Fragment :=
  match k.progress with
  | .finished package => some package
  | _ => none

/-- The fault that a worker has met. -/
def fault? (k : Worker) : Option Fault :=
  match k.progress with
  | .failed fault => some fault
  | _ => none

/-- How many steps a worker takes at most until it has finished or failed. -/
def stepsLeft (k : Worker) : ℕ :=
  match k.progress with
  | .waiting => 3
  | .gathered _ => 2
  | .missed _ => 1
  | .finished _ | .failed _ => 0

/-- A worker keeps its shard. -/
theorem shard_step (o : ModuleOrder) (chain : List Injector) (k : Worker) (w : Workbench) :
    (k.step o chain w).1.shard = k.shard := by
  obtain ⟨shard, progress⟩ := k
  cases progress with
  | waiting =>
    unfold step
    rcases o.gather shard w.storage with ⟨fault | g, storage⟩
    · rfl
    · rfl
  | gathered g =>
    unfold step
    simp only
    split
    · rfl
    · rfl
  | missed g => rfl
  | finished package => rfl
  | failed fault => rfl

theorem stepsLeft_pos {k : Worker} (hpackage : k.package? = none) (hfault : k.fault? = none) :
    0 < k.stepsLeft := by
  obtain ⟨shard, progress⟩ := k
  cases progress with
  | waiting => exact Nat.succ_pos _
  | gathered g => exact Nat.succ_pos _
  | missed g => exact Nat.succ_pos _
  | finished package => cases hpackage
  | failed fault => cases hfault

theorem stepsLeft_step {o : ModuleOrder} {k : Worker} (chain : List Injector) (w : Workbench)
    (h : 0 < k.stepsLeft) : (k.step o chain w).1.stepsLeft < k.stepsLeft := by
  obtain ⟨shard, progress⟩ := k
  cases progress with
  | waiting =>
    unfold step
    rcases o.gather shard w.storage with ⟨fault | g, storage⟩
    · exact Nat.succ_pos _
    · exact Nat.lt_succ_self _
  | gathered g =>
    unfold step
    simp only
    split
    · exact Nat.lt_succ_self _
    · exact Nat.succ_pos _
  | missed g => exact Nat.succ_pos _
  | finished package => exact absurd h (Nat.lt_irrefl _)
  | failed fault => exact absurd h (Nat.lt_irrefl _)

end Worker

/-! ### Pools -/

/-- The workers of a run with their workbench. -/
structure Pool where
  /-- The workers, in the order of the shards. -/
  workers : List Worker
  /-- The workbench. -/
  bench : Workbench

namespace Pool

/-- The pool before its first step. -/
def start (shards : List Shard) (storage : Storage) : Pool :=
  ⟨shards.map fun shard => { shard }, { storage }⟩

/-- Let one worker take a step. -/
def step (o : ModuleOrder) (chain : List Injector) (pool : Pool) (i : ℕ) : Pool :=
  match pool.workers[i]? with
  | none => pool
  | some k => ⟨pool.workers.set i (k.step o chain pool.bench).1, (k.step o chain pool.bench).2⟩

/-- Let the workers that a schedule lists take a step each, one after the other. -/
def run (o : ModuleOrder) (chain : List Injector) (schedule : List ℕ) (pool : Pool) : Pool :=
  schedule.foldl (step o chain) pool

/-- The worker that is chosen takes a step, and the others stay as they are. -/
theorem step_middle {pool : Pool} {front rest : List Worker} {k : Worker} (o : ModuleOrder)
    (chain : List Injector) (h : pool.workers = front ++ k :: rest) :
    pool.step o chain front.length =
      ⟨front ++ (k.step o chain pool.bench).1 :: rest, (k.step o chain pool.bench).2⟩ := by
  have hchosen : pool.workers[front.length]? = some k := by
    rw [h, List.getElem?_append_right (Nat.le_refl _), Nat.sub_self]
    rfl
  have hset (k' : Worker) : pool.workers.set front.length k' = front ++ k' :: rest := by
    rw [h, List.set_append_right _ _ (Nat.le_refl _), Nat.sub_self, List.set_cons_zero]
  unfold step
  simp only [hchosen, hset]

/-- A step changes nothing or one worker. -/
theorem step_cases (o : ModuleOrder) (chain : List Injector) (pool : Pool) (i : ℕ) :
    pool.step o chain i = pool ∨ ∃ front k rest, pool.workers = front ++ k :: rest ∧
      pool.step o chain i =
        ⟨front ++ (k.step o chain pool.bench).1 :: rest, (k.step o chain pool.bench).2⟩ := by
  by_cases hi : i < pool.workers.length
  · have hsplit : pool.workers =
        pool.workers.take i ++ pool.workers[i] :: pool.workers.drop (i + 1) := by
      rw [← List.drop_eq_getElem_cons hi, List.take_append_drop]
    have hstep := step_middle o chain hsplit
    rw [List.length_take_of_le hi.le] at hstep
    exact .inr ⟨_, _, _, hsplit, hstep⟩
  · left
    unfold step
    rw [List.getElem?_eq_none (Nat.le_of_not_lt hi)]

theorem map_shard_step (o : ModuleOrder) (chain : List Injector) (pool : Pool) (i : ℕ) :
    (pool.step o chain i).workers.map (·.shard) = pool.workers.map (·.shard) := by
  rcases step_cases o chain pool i with hstep | ⟨front, k, rest, hsplit, hstep⟩
  · rw [hstep]
  · rw [hstep, hsplit]
    simp only [List.map_append, List.map_cons, Worker.shard_step]

/-- A run is over when some worker has failed or all have finished. -/
def Ended (pool : Pool) : Prop :=
  (∃ k ∈ pool.workers, k.fault?.isSome) ∨ ∀ k ∈ pool.workers, k.package?.isSome

instance (pool : Pool) : Decidable pool.Ended :=
  inferInstanceAs (Decidable (_ ∨ _))

/-- The packages of a run in the order of their shards, if all were made. -/
def packages? (pool : Pool) : Option (List Fragment) := pool.workers.mapM Worker.package?

end Pool

/-! ### What a worker makes alone -/

namespace ModuleOrder

/-- The package of a shard that is merged on an empty cache, if it can be merged. -/
def package? (o : ModuleOrder) (chain : List Injector) (s : Storage) (shard : Shard) :
    Option Fragment :=
  (o.merge shard { storage := s }).1.toOption.map fun merged => applyInjectors chain merged.fragment

variable {o : ModuleOrder} {chain : List Injector} {s : Storage} {shard : Shard} {g : Gathered}

theorem package?_of_gather_eq_ok (h : (o.gather shard s).1 = .ok g) :
    o.package? chain s shard =
      some (applyInjectors chain (g.fragmentWith o (renumber g.union.segments))) := by
  have hmerge : (o.merge shard { storage := s }).1 = .ok (g.fuse o shard .empty).1 :=
    merge_of_gather_eq_ok h
  unfold package?
  rw [hmerge, ← g.fragment_fuse_empty o shard]
  rfl

theorem package?_of_gather_eq_error {fault : Fault} (h : (o.gather shard s).1 = .error fault) :
    o.package? chain s shard = none := by
  have hmerge : (o.merge shard { storage := s }).1 = .error fault := merge_of_gather_eq_error h
  unfold package?
  rw [hmerge]
  rfl

end ModuleOrder

/-! ### One step -/

section Steps

variable {o : ModuleOrder} {chain : List Injector} {s : Storage} {shards : List Shard}
  {C : Set Content} {k : Worker} {w : Workbench} {g : Gathered}

/-- A worker is as far as it would be alone. -/
def Worker.Sound (o : ModuleOrder) (chain : List Injector) (s : Storage) (k : Worker) : Prop :=
  match k.progress with
  | .waiting => True
  | .gathered g | .missed g => (o.gather k.shard s).1 = .ok g
  | .finished package => o.package? chain s k.shard = some package
  | .failed _ => o.package? chain s k.shard = none

/-- The key that a worker has asked for by the time it has finished. -/
def Worker.asked? (o : ModuleOrder) (s : Storage) (k : Worker) : Option MergeKey :=
  if k.package?.isSome then o.key? s k.shard else none

/-- Among the requests of some shards equal keys come of segments that are renumbered alike. -/
def KeysTellRenumbering (o : ModuleOrder) (s : Storage) (shards : List Shard) : Prop :=
  ∀ l l', o.Requested s shards l → o.Requested s shards l' →
    MergeKey.ofSegments l = .ofSegments l' → renumber l = renumber l'

/-- Finishing makes the package that would be made alone, and counts the key that is asked for. -/
theorem Worker.sound_finish (hkeys : KeysTellRenumbering o s shards)
    (hw : w.Sound C s (o.Requested s shards)) (hread : (o.gather k.shard s).1 = .ok g)
    (hg : o.Requested s shards g.union.segments) :
    (k.finish o chain g w).1.Sound o chain s ∧
      (k.finish o chain g w).2.Sound C s (o.Requested s shards) ∧
      ∀ asked, w.cache.Tally asked →
        (k.finish o chain g w).2.cache.Tally
          (((k.finish o chain g w).1.asked? o s).toList ++ asked) := by
  obtain ⟨hafter, l, hl, hkey, hfragment⟩ := hw.fuse hg o k.shard
  refine ⟨?_, hafter, fun asked htally => ?_⟩
  · change o.package? chain s k.shard =
      some (applyInjectors chain (g.fuse o k.shard w.cache).1.fragment)
    rw [ModuleOrder.package?_of_gather_eq_ok hread, hfragment, hkeys _ _ hg hl hkey]
  · change (g.segments w.cache).2.2.Tally ((o.key? s k.shard).toList ++ asked)
    rw [ModuleOrder.key?_of_gather_eq_ok hread]
    exact Gathered.segments_tally htally

/-- A step keeps a worker as far as it would be alone, leaves the workbench sound, and counts the
key that the worker has asked for if it finishes. -/
theorem Worker.Sound.step (h : k.Sound o chain s) (hs : ∀ c ∈ C, c.Steady s)
    (hkeys : KeysTellRenumbering o s shards) (hw : w.Sound C s (o.Requested s shards))
    (hshard : k.shard ∈ shards) (hC : ∀ c ∈ k.shard.contents, c ∈ C) :
    (k.step o chain w).1.Sound o chain s ∧
      (k.step o chain w).2.Sound C s (o.Requested s shards) ∧
      ∀ asked, w.cache.Tally ((k.asked? o s).toList ++ asked) →
        (k.step o chain w).2.cache.Tally (((k.step o chain w).1.asked? o s).toList ++ asked) := by
  obtain ⟨shard, progress⟩ := k
  have hfinish : ∀ g, (o.gather shard s).1 = .ok g →
      (Worker.finish o chain g ⟨shard, progress⟩ w).1.Sound o chain s ∧
        (Worker.finish o chain g ⟨shard, progress⟩ w).2.Sound C s (o.Requested s shards) ∧
        ∀ asked, w.cache.Tally asked →
          (Worker.finish o chain g ⟨shard, progress⟩ w).2.cache.Tally
            (((Worker.finish o chain g ⟨shard, progress⟩ w).1.asked? o s).toList ++ asked) :=
    fun g hg => sound_finish hkeys hw hg (ModuleOrder.requested_of_gather hs hshard hC hg)
  -- only a step that finishes asks for the key, and it does so whether the look-up found it or not
  cases progress with
  | waiting =>
    obtain ⟨hanswer, hafter⟩ := hw.gather (o := o) hC
    unfold Worker.step
    rcases hread : o.gather shard w.storage with ⟨fault | g, storage⟩
    · rw [hread] at hanswer hafter
      simp only
      exact ⟨ModuleOrder.package?_of_gather_eq_error hanswer.symm, hafter, fun _ h => h⟩
    · rw [hread] at hanswer hafter
      simp only
      exact ⟨hanswer.symm, hafter, fun _ h => h⟩
  | gathered g =>
    unfold Worker.step
    simp only
    split
    · exact ⟨h, hw, fun _ h => h⟩
    · exact hfinish g h
  | missed g => exact hfinish g h
  | finished package => exact ⟨h, hw, fun _ h => h⟩
  | failed fault => exact ⟨h, hw, fun _ h => h⟩

end Steps

/-! ### Runs -/

section Runs

variable {o : ModuleOrder} {chain : List Injector} {s : Storage} {shards : List Shard}
  {C : Set Content} {pool : Pool}

/-- What holds of a pool at any time of a run. -/
structure Pool.Sound (C : Set Content) (o : ModuleOrder) (chain : List Injector) (s : Storage)
    (shards : List Shard) (pool : Pool) : Prop where
  /-- The workers keep their shards. -/
  shards_eq : pool.workers.map (·.shard) = shards
  /-- Every worker is as far as it would be alone. -/
  workers : ∀ k ∈ pool.workers, k.Sound o chain s
  /-- The workbench is one on which these shards were merged. -/
  bench : pool.bench.Sound C s (o.Requested s shards)
  /-- The counters fit the keys of the workers that have finished. -/
  tally : pool.bench.cache.Tally (pool.workers.filterMap (·.asked? o s))

namespace Pool

theorem sound_start (o : ModuleOrder) (chain : List Injector) (hs : ∀ c ∈ C, c.Steady s) :
    (start shards s).Sound C o chain s shards := by
  refine ⟨?_, ?_, .fresh hs, ?_⟩
  · unfold start
    rw [List.map_map]
    exact List.map_id shards
  · intro k hk
    obtain ⟨shard, -, rfl⟩ := List.mem_map.1 hk
    exact trivial
  · have hnone : (start shards s).workers.filterMap (·.asked? o s) = [] := by
      rw [List.filterMap_eq_nil_iff]
      intro k hk
      obtain ⟨shard, -, rfl⟩ := List.mem_map.1 hk
      rfl
    rw [hnone]
    exact MergeCache.tally_empty

theorem Sound.step (h : pool.Sound C o chain s shards) (hs : ∀ c ∈ C, c.Steady s)
    (hkeys : KeysTellRenumbering o s shards)
    (hC : ∀ shard ∈ shards, ∀ c ∈ shard.contents, c ∈ C) (i : ℕ) :
    (pool.step o chain i).Sound C o chain s shards := by
  have hshards := (map_shard_step o chain pool i).trans h.shards_eq
  rcases step_cases o chain pool i with hstep | ⟨front, k, rest, hsplit, hstep⟩
  · rw [hstep]
    exact h
  · have hshard : k.shard ∈ shards := by
      rw [← h.shards_eq, hsplit]
      exact List.mem_map_of_mem (List.mem_append_right _ List.mem_cons_self)
    have hworkers := h.workers
    have hbefore := h.tally
    rw [hsplit] at hbefore hworkers
    rw [List.forall_mem_append, List.forall_mem_cons] at hworkers
    obtain ⟨hfront, hk, hrest⟩ := hworkers
    obtain ⟨hworker, hbench, htally⟩ := hk.step hs hkeys h.bench hshard (hC _ hshard)
    rw [hstep] at hshards ⊢
    refine ⟨hshards, ?_, hbench, ?_⟩
    · rw [List.forall_mem_append, List.forall_mem_cons]
      exact ⟨hfront, hworker, hrest⟩
    · -- the keys asked for by the others are the same before and after
      have hasked (k : Worker) := filterMap_middle_perm (·.asked? o s) front rest k
      exact (htally _ (hbefore.of_perm (hasked k))).of_perm (hasked _).symm

/-- Every run keeps the invariant. -/
theorem Sound.run (h : pool.Sound C o chain s shards) (hs : ∀ c ∈ C, c.Steady s)
    (hkeys : KeysTellRenumbering o s shards)
    (hC : ∀ shard ∈ shards, ∀ c ∈ shard.contents, c ∈ C) (schedule : List ℕ) :
    (pool.run o chain schedule).Sound C o chain s shards := by
  induction schedule generalizing pool with
  | nil => exact h
  | cons i schedule ih => exact ih (h.step hs hkeys hC i)

/-! ### The end of a run -/

/-- At the end of a run the packages are those that are made alone. -/
theorem Sound.packages?_eq (h : pool.Sound C o chain s shards) (hended : pool.Ended) :
    pool.packages? = shards.mapM (o.package? chain s) := by
  unfold packages?
  rw [← h.shards_eq]
  rcases hended with ⟨k, hk, hfault⟩ | hfinished
  · -- what one worker cannot make is missing however the others end
    obtain ⟨shard, progress⟩ := k
    have hworker := h.workers _ hk
    cases progress with
    | failed fault =>
      rw [mapM_eq_none_of_mem hk rfl]
      exact (mapM_eq_none_of_mem (List.mem_map_of_mem hk) hworker).symm
    | waiting => cases hfault
    | gathered g => cases hfault
    | missed g => cases hfault
    | finished package => cases hfault
  · refine mapM_eq_mapM_map fun k hk => ?_
    have hworker := h.workers _ hk
    have hdone := hfinished k hk
    obtain ⟨shard, progress⟩ := k
    cases progress with
    | finished package => exact hworker.symm
    | waiting => cases hdone
    | gathered g => cases hdone
    | missed g => cases hdone
    | failed fault => cases hdone

/-- If all packages were made, the counters fit the keys of all shards. -/
theorem Sound.tally_of_packages? (h : pool.Sound C o chain s shards)
    (hmade : pool.packages?.isSome) :
    pool.bench.cache.Tally (shards.filterMap (o.key? s)) := by
  have hasked : pool.workers.filterMap (·.asked? o s) = shards.filterMap (o.key? s) := by
    rw [← h.shards_eq, List.filterMap_map]
    refine List.filterMap_congr fun k hk => ?_
    unfold Worker.asked?
    rw [if_pos (isSome_of_isSome_mapM hmade k hk)]
    rfl
  rw [← hasked]
  exact h.tally

/-- Every run can be continued to its end. -/
theorem exists_ended (o : ModuleOrder) (chain : List Injector) (pool : Pool) :
    ∃ schedule, (pool.run o chain schedule).Ended := by
  -- the induction is on the steps that all workers have left, of which a step of an open one is one
  induction hn : (pool.workers.map (·.stepsLeft)).sum using Nat.strongRecOn generalizing pool with
  | _ n ih =>
    by_cases hended : pool.Ended
    · exact ⟨[], hended⟩
    · obtain ⟨-, hopen⟩ := not_or.1 hended
      simp only [not_forall] at hopen
      obtain ⟨k, hk, hopen⟩ := hopen
      have hfault : k.fault? = none := by
        by_contra hfault
        exact hended (.inl ⟨k, hk, Option.isSome_iff_ne_none.2 hfault⟩)
      obtain ⟨front, rest, hsplit⟩ := List.append_of_mem hk
      have hless := Worker.stepsLeft_step (o := o) chain pool.bench
        (Worker.stepsLeft_pos (by simpa using hopen) hfault)
      have hsum : ((pool.step o chain front.length).workers.map (·.stepsLeft)).sum < n := by
        rw [step_middle o chain hsplit, ← hn, hsplit]
        simp only [List.map_append, List.map_cons, List.sum_append, List.sum_cons]
        omega
      obtain ⟨schedule, hschedule⟩ := ih _ hsum (pool.step o chain front.length) rfl
      exact ⟨front.length :: schedule, hschedule⟩

end Pool

/-! ### The run in order -/

/-- A run that takes the shards in order makes the same packages, and its counters fit the same
keys. -/
theorem finishShards_sound (chain : List Injector) (hs : ∀ c ∈ C, c.Steady s)
    (hkeys : KeysTellRenumbering o s shards) (hC : ∀ shard ∈ shards, ∀ c ∈ shard.contents, c ∈ C)
    {rest : List Shard} (hrest : rest ⊆ shards) {w : Workbench}
    (hw : w.Sound C s (o.Requested s shards)) {asked : List MergeKey}
    (htally : w.cache.Tally asked) :
    (finishShards o chain rest w).result.toOption = rest.mapM (o.package? chain s) ∧
      ((finishShards o chain rest w).result.toOption.isSome →
        (finishShards o chain rest w).workbench.cache.Tally
          (rest.filterMap (o.key? s) ++ asked)) := by
  induction rest generalizing w asked with
  | nil => exact ⟨rfl, fun _ => htally⟩
  | cons shard rest ih =>
    obtain ⟨hshard, hrest⟩ := List.cons_subset.1 hrest
    obtain ⟨hanswer, hafter⟩ := hw.gather (o := o) (hC shard hshard)
    rw [List.mapM_cons]
    unfold finishShards ModuleOrder.merge
    rcases hread : o.gather shard w.storage with ⟨fault | g, storage⟩
    · rw [hread] at hanswer hafter
      rw [ModuleOrder.package?_of_gather_eq_error hanswer.symm]
      exact ⟨rfl, fun h => absurd h Bool.false_ne_true⟩
    · rw [hread] at hanswer hafter
      have hg := ModuleOrder.requested_of_gather hs hshard (hC shard hshard) hanswer.symm
      obtain ⟨hfused, l, hl, hkey, hfragment⟩ := hafter.fuse hg o shard
      have hkeep : (g.segments w.cache).2.2.Tally (g.key?.toList ++ asked) :=
        Gathered.segments_tally htally
      obtain ⟨hpackages, hcount⟩ := ih hrest hfused hkeep
      have hasked : (shard :: rest).filterMap (o.key? s) =
          g.key?.toList ++ rest.filterMap (o.key? s) := by
        rw [List.filterMap_cons, ModuleOrder.key?_of_gather_eq_ok hanswer.symm]
        cases g.key? <;> rfl
      rw [ModuleOrder.package?_of_gather_eq_ok hanswer.symm, hkeys _ _ hg hl hkey, ← hfragment,
        ← hpackages, hasked]
      dsimp only
      cases hrun : (finishShards o chain rest ⟨storage, (g.fuse o shard w.cache).2⟩).result with
      | error fault => exact ⟨rfl, fun h => absurd h Bool.false_ne_true⟩
      | ok packages =>
        -- the later shards have asked last, so their keys stand in front
        refine ⟨rfl, fun _ => (hcount (by rw [hrun]; rfl)).of_perm ?_⟩
        rw [List.append_assoc]
        exact List.perm_append_comm_assoc _ _ _

/-! ### Independence of the schedule -/

/-- In some shards a module's name and a path tell the entry. -/
def OneEntryPerPath (shards : List Shard) : Prop :=
  ∀ shard ∈ shards, ∀ f ∈ shard.fragments, ∀ e ∈ f.entries,
    ∀ shard' ∈ shards, ∀ f' ∈ shard'.fragments, ∀ e' ∈ f'.entries,
      f.module = f'.module → e.path = e'.path → e = e'

theorem OneEntryPerPath.subset {shards' : List Shard} (h : OneEntryPerPath shards)
    (hsub : shards' ⊆ shards) : OneEntryPerPath shards' :=
  fun shard hshard f hf e he shard' hshard' =>
    h shard (hsub hshard) f hf e he shard' (hsub hshard')

/-- If names and paths tell entries, they tell segments, be they of different shards. -/
theorem OneEntryPerPath.segment_eq (h : OneEntryPerPath shards) {shard shard' : Shard}
    (hshard : shard ∈ shards) (hshard' : shard' ∈ shards) {a b : CodeSegment}
    (ha : a ∈ o.shardSegments s shard) (hb : b ∈ o.shardSegments s shard')
    (hmodule : a.module = b.module) (hpath : a.entry.path = b.entry.path) : a = b := by
  obtain ⟨f, hf, e, he, i, x, hi, hx, rfl⟩ := ModuleOrder.mem_shardSegments.1 ha
  obtain ⟨f', hf', e', he', j, y, hj, hy, rfl⟩ := ModuleOrder.mem_shardSegments.1 hb
  dsimp only at hmodule hpath
  obtain rfl := h shard hshard f hf e he shard' hshard' f' hf' e' he' hmodule hpath
  rw [hi] at hj
  rw [hx] at hy
  cases hj
  cases hy
  rw [hmodule]

/-- If names and paths tell entries, equal keys come of segments that are renumbered alike. -/
theorem OneEntryPerPath.keysTellRenumbering (h : OneEntryPerPath shards)
    (hnames : ∀ shard ∈ shards, ∀ f ∈ shard.fragments, '\x00' ∉ f.module.toList)
    (hfree : CollisionFree (o.keyTexts s shards)) : KeysTellRenumbering o s shards := by
  intro l l' hl hl' hkey
  have hparts := hl.mem_parts_iff hl' hnames hfree hkey
  have hplaced := hl.placed
  obtain ⟨shard, hshard, -, rfl⟩ := hl
  obtain ⟨shard', hshard', -, rfl⟩ := hl'
  have hsegments : orderedSegments (o.shardSegments s shard) =
      orderedSegments (o.shardSegments s shard') := by
    refine orderedSegments_eq_of_parts hplaced ?_ hparts
    rintro a ha b (hb | hb) hmodule hpath
    · exact h.segment_eq hshard hshard ha hb hmodule hpath
    · exact h.segment_eq hshard hshard' ha hb hmodule hpath
  unfold renumber
  rw [hsegments]

end Runs

/-! ### The run of a bundle -/

section Bundle

variable {p : Policy} {modules : List BundleModule} {s : Storage} {found : List Shard}

/-- The counters of a cache: hits, misses and keys. -/
def MergeCache.counters (c : MergeCache) : ℕ × ℕ × ℕ := (c.hits, c.misses, c.size)

theorem MergeCache.Tally.counters_eq {asked : List MergeKey} {c c' : MergeCache}
    (h : c.Tally asked) (h' : c'.Tally asked) : c.counters = c'.counters := by
  obtain ⟨hhits, hmisses, hsize⟩ := h.eq_of_perm h' (.refl _)
  rw [counters, counters, hhits, hmisses, hsize]

/-- The workers of a run for the packages of a bundle, after the steps that a schedule lists. -/
def scheduledRun (p : Policy) (stamp : Option String) (metadata : BundleMetadata)
    (modules : List BundleModule) (s : Storage) (found : List Shard) (schedule : List ℕ) : Pool :=
  (Pool.start found s).run (.ofModules modules)
    (standaloneInjectors p.restrictV3Signing stamp metadata) schedule

theorem steady_contentsOf_shards
    (hsteady : ∀ f ∈ bundleFragments p modules p.standaloneDimensions, ∀ e ∈ f.entries,
      e.content.Steady s)
    (hfound : shards p.standaloneDimensions
      (bundleFragments p modules p.standaloneDimensions) = .ok found) :
    ∀ c ∈ contentsOf found, c.Steady s := by
  rintro c ⟨shard, hshard, hc⟩
  obtain ⟨f, hf, e, he, rfl⟩ := Shard.mem_contents.1 hc
  exact hsteady f (fragments_subset_of_shards hfound hshard hf) e he

/-- If no module emits two entries at one path, names and paths tell the entries of the shards. -/
theorem oneEntryPerPath_of_shards (hdistinct : (modules.map (·.name)).Nodup)
    (hpaths : ∀ m ∈ modules, ((p.partition m p.standaloneDimensions).flatMap (·.paths)).Nodup)
    (hfound : shards p.standaloneDimensions
      (bundleFragments p modules p.standaloneDimensions) = .ok found) : OneEntryPerPath found := by
  intro shard hshard f hf e he shard' hshard' f' hf' e' he' hmodule hpath
  exact entry_eq_of_path_eq hdistinct hpaths (fragments_subset_of_shards hfound hshard hf)
    (fragments_subset_of_shards hfound hshard' hf') hmodule he he' hpath

/-- If no module emits two entries at one path, equal keys come of segments that are renumbered
alike. -/
theorem keysTellRenumbering_of_shards (hdistinct : (modules.map (·.name)).Nodup)
    (hnames : ∀ m ∈ modules, '\x00' ∉ m.name.toList)
    (hpaths : ∀ m ∈ modules, ((p.partition m p.standaloneDimensions).flatMap (·.paths)).Nodup)
    (hfound : shards p.standaloneDimensions
      (bundleFragments p modules p.standaloneDimensions) = .ok found)
    (hfree : CollisionFree ((ModuleOrder.ofModules modules).keyTexts s found)) :
    KeysTellRenumbering (.ofModules modules) s found := by
  refine (oneEntryPerPath_of_shards hdistinct hpaths hfound).keysTellRenumbering ?_ hfree
  intro shard hshard f hf
  obtain ⟨m, hm, hf⟩ := mem_bundleFragments.1 (fragments_subset_of_shards hfound hshard hf)
  rw [Policy.module_of_mem_partition hf]
  exact hnames m hm

end Bundle

/-- Whatever the schedule, a run that is over has made the same packages or none: that at each
position is the package of the shard at this position, merged on an empty cache and finished.  If
the packages were made the counters of the cache are the same.  One of these runs is the one that
takes the shards in order. -/
theorem packages_independent_of_schedule (p : Policy) (stamp : Option String)
    (metadata : BundleMetadata) (workers : Workers) (modules : List BundleModule) (s : Storage)
    (hdistinct : (modules.map (·.name)).Nodup)
    (hnames : ∀ m ∈ modules, '\x00' ∉ m.name.toList)
    (hpaths : ∀ m ∈ modules, ((p.partition m p.standaloneDimensions).flatMap (·.paths)).Nodup)
    (hsteady : ∀ f ∈ bundleFragments p modules p.standaloneDimensions, ∀ e ∈ f.entries,
      e.content.Steady s)
    {found : List Shard} (hfound : shards p.standaloneDimensions
      (bundleFragments p modules p.standaloneDimensions) = .ok found)
    (hfree : CollisionFree ((ModuleOrder.ofModules modules).keyTexts s found))
    {σ τ : List ℕ} (hσ : (scheduledRun p stamp metadata modules s found σ).Ended)
    (hτ : (scheduledRun p stamp metadata modules s found τ).Ended) :
    (scheduledRun p stamp metadata modules s found σ).packages? =
        found.mapM ((ModuleOrder.ofModules modules).package?
          (standaloneInjectors p.restrictV3Signing stamp metadata) s) ∧
      (scheduledRun p stamp metadata modules s found τ).packages? =
        (scheduledRun p stamp metadata modules s found σ).packages? ∧
      (generatePackages p stamp metadata workers modules s).result.toOption =
        (scheduledRun p stamp metadata modules s found σ).packages? ∧
      ((scheduledRun p stamp metadata modules s found σ).packages?.isSome →
        (scheduledRun p stamp metadata modules s found τ).bench.cache.counters =
            (scheduledRun p stamp metadata modules s found σ).bench.cache.counters ∧
          (generatePackages p stamp metadata workers modules s).workbench.cache.counters =
            (scheduledRun p stamp metadata modules s found σ).bench.cache.counters) := by
  let o := ModuleOrder.ofModules modules
  let chain := standaloneInjectors p.restrictV3Signing stamp metadata
  have hs := steady_contentsOf_shards hsteady hfound
  have hkeys := keysTellRenumbering_of_shards hdistinct hnames hpaths hfound hfree
  have hC : ∀ shard ∈ found, ∀ c ∈ shard.contents, c ∈ contentsOf found :=
    fun shard hshard c hc => ⟨shard, hshard, hc⟩
  have hsound (schedule : List ℕ) :
      (scheduledRun p stamp metadata modules s found schedule).Sound (contentsOf found) o chain s
        found := (Pool.sound_start o chain hs).run hs hkeys hC schedule
  have hpackagesσ := (hsound σ).packages?_eq hσ
  have hpackagesτ := (hsound τ).packages?_eq hτ
  obtain ⟨hresult, hbench⟩ := generatePackages_of_shards stamp metadata workers s hfound
  obtain ⟨hinorder, hcount⟩ := finishShards_sound chain hs hkeys hC
    (List.Subset.refl found) (.fresh hs) MergeCache.tally_empty
  refine ⟨hpackagesσ, hpackagesτ.trans hpackagesσ.symm, ?_, fun hmade => ⟨?_, ?_⟩⟩
  · rw [hresult]
    exact hinorder.trans hpackagesσ.symm
  · have hmadeτ : (scheduledRun p stamp metadata modules s found τ).packages?.isSome := by
      rwa [hpackagesτ, ← hpackagesσ]
    exact ((hsound τ).tally_of_packages? hmadeτ).counters_eq ((hsound σ).tally_of_packages? hmade)
  · have htally := hcount (by rwa [hinorder, ← hpackagesσ])
    rw [List.append_nil] at htally
    rw [hbench]
    exact htally.counters_eq ((hsound σ).tally_of_packages? hmade)

/-- The shards of the bundle, one for each architecture. -/
def nativeShards : List Shard :=
  candidateShards nativePolicy.standaloneDimensions
    (bundleFragments nativePolicy nativeBundle nativePolicy.standaloneDimensions)

/-- Two workers that both look the key of the code up before one of them has it kept make the
packages that they make one after the other. -/
theorem packages_nativeBundle_race :
    let run := scheduledRun nativePolicy none {} nativeBundle {} nativeShards
    (run [0, 1, 0, 1, 0, 1]).packages? = (run [0, 0, 0, 1, 1, 1]).packages? ∧
      (run [0, 0, 0, 1, 1, 1]).packages?.isSome ∧
      (run [0, 1, 0, 1, 0, 1]).bench.cache.counters =
        (run [0, 0, 0, 1, 1, 1]).bench.cache.counters := by
  have hfound : shards nativePolicy.standaloneDimensions (bundleFragments nativePolicy nativeBundle
      nativePolicy.standaloneDimensions) = .ok nativeShards := rfl
  have hmade : (scheduledRun nativePolicy none {} nativeBundle {} nativeShards
      [0, 0, 0, 1, 1, 1]).packages?.isSome := by decide +kernel
  have hended : (scheduledRun nativePolicy none {} nativeBundle {} nativeShards
      [0, 0, 0, 1, 1, 1]).Ended := by decide +kernel
  have hendedRace : (scheduledRun nativePolicy none {} nativeBundle {} nativeShards
      [0, 1, 0, 1, 0, 1]).Ended := by decide +kernel
  obtain ⟨-, hsame, -, hcounters⟩ := packages_independent_of_schedule nativePolicy none {} .shared
    nativeBundle {} (by decide) (by decide) (by decide +kernel)
    (fun _ _ e _ => Content.steady_of_digest?_eq_none rfl) hfound (by decide +kernel) hended
    hendedRace
  exact ⟨hsame, hmade, (hcounters hmade).1⟩

end BundlePackaging
