import BundlePackaging.Proofs.CacheHistory

/-!
# Requests that share a cache

Requests of several workers reach one cache at a time, and each takes two steps.  It looks its key
up and ends if something is kept there.  Otherwise it locks the key, looks again, and computes and
keeps its entries only if the key is still free.  Between the two steps any other request may take
one, so several requests can have missed the same key before the first of them fills it.

The invariant says that what is kept are the keys and entries that requests have computed, each
once, and that the counters fit the requests that were answered.

## Main definitions

* `Request`, `Request.step` — a request and its steps.
* `RequestPool`, `RequestPool.run` — requests with their cache, and the run of a schedule.
* `RequestPool.Sound` — the invariant.

## Main results

* `Request.step_step` — a request that is alone is answered as `MergeCache.getOrMerge` answers.
* `Request.step_cases` — all that a step can do.
* `RequestPool.Sound.run` — every run keeps the invariant.
* `RequestPool.answered_of_two_le_count` — a request that has taken two steps is answered.
* `RequestPool.requests_compute_once` — **no key is computed twice, all requests for a key get the
  same entries, and in the end each key was missed once.**
-/

namespace BundlePackaging

/-! ### Requests -/

/-- How far a request is. -/
inductive RequestProgress where
  /-- The key was not looked up. -/
  | waiting
  /-- The key was looked up and not found. -/
  | missed
  /-- The request was answered. -/
  | answered (entries : List Entry) (answer : CacheAnswer)

/-- A request for what is kept under a key. -/
structure Request where
  /-- The key. -/
  key : MergeKey
  /-- What computes the entries if nothing is kept under the key. -/
  merge : Unit → List Entry
  /-- How far the request is. -/
  progress : RequestProgress := .waiting

namespace Request

variable {r : Request} {c : MergeCache} {entries : List Entry}

/-- One step of a request: look the key up; lock the key, look again, and compute and keep the
entries if the key is still free. -/
def step (r : Request) (c : MergeCache) : Request × MergeCache :=
  match r.progress with
  | .waiting =>
    match c.lookUp? r.key with
    | some entries => ({ r with progress := .answered entries .hit }, c.countHit)
    | none => ({ r with progress := .missed }, c)
  | .missed =>
    let (entries, answer, c') := c.getOrMerge r.key r.merge
    ({ r with progress := .answered entries answer }, c')
  | .answered .. => (r, c)

/-- The entries with which a request was answered. -/
def entries? (r : Request) : Option (List Entry) :=
  match r.progress with
  | .answered entries _ => some entries
  | _ => none

/-- Whether the request computed its entries itself. -/
def computed (r : Request) : Bool :=
  match r.progress with
  | .answered _ .miss => true
  | _ => false

/-- The key of a request that was answered. -/
def asked? (r : Request) : Option MergeKey := if r.entries?.isSome then some r.key else none

/-- What a request has computed, with its key. -/
def filled? (r : Request) : Option (MergeKey × List Entry) :=
  if r.computed then some (r.key, r.merge ()) else none

/-- How many steps the request takes at most until it is answered. -/
def stepsLeft (r : Request) : ℕ :=
  match r.progress with
  | .waiting => 2
  | .missed => 1
  | .answered .. => 0

/-- A request that no other one interrupts is answered as the cache answers it in one go. -/
theorem step_step (key : MergeKey) (merge : Unit → List Entry) (c : MergeCache) :
    let (r, c') := step { key, merge } c
    r.step c' =
      ({ key, merge,
         progress := .answered (c.getOrMerge key merge).1 (c.getOrMerge key merge).2.1 },
        (c.getOrMerge key merge).2.2) := by
  cases hlook : c.lookUp? key with
  | some entries => simp only [step, MergeCache.getOrMerge, hlook]
  | none => simp only [step, MergeCache.getOrMerge, hlook]

/-- A step leaves the cache as it is, and answers nothing or was taken by an answered request; or it
answers the request with what is kept; or it answers it with what it computes and keeps that. -/
theorem step_cases (r : Request) (c : MergeCache) :
    ((r.step c).2 = c ∧ (r.step c).1.key = r.key ∧ (r.step c).1.merge = r.merge ∧
      (r.step c).1.entries? = r.entries? ∧ (r.step c).1.computed = r.computed) ∨
    (∃ entries, r.entries? = none ∧ c.lookUp? r.key = some entries ∧
      r.step c = ({ r with progress := .answered entries .hit }, c.countHit)) ∨
    (r.entries? = none ∧ c.lookUp? r.key = none ∧
      r.step c = ({ r with progress := .answered (r.merge ()) .miss },
        c.fill r.key (r.merge ()))) := by
  obtain ⟨key, merge, progress⟩ := r
  cases progress with
  | waiting =>
    cases hlook : c.lookUp? key with
    | some entries =>
      right; left
      exact ⟨entries, rfl, rfl, by simp only [step, hlook]⟩
    | none =>
      have hstep : step ⟨key, merge, .waiting⟩ c = (⟨key, merge, .missed⟩, c) := by
        simp only [step, hlook]
      left
      rw [hstep]
      exact ⟨rfl, rfl, rfl, rfl, rfl⟩
  | missed =>
    right
    cases hlook : c.lookUp? key with
    | some entries =>
      left
      exact ⟨entries, rfl, rfl, by simp only [step, MergeCache.getOrMerge, hlook]⟩
    | none =>
      right
      exact ⟨rfl, rfl, by simp only [step, MergeCache.getOrMerge, hlook]⟩
  | answered entries answer =>
    left
    exact ⟨rfl, rfl, rfl, rfl, rfl⟩

theorem computed_eq_false (h : r.entries? = none) : r.computed = false := by
  obtain ⟨key, merge, progress⟩ := r
  cases progress with
  | waiting => rfl
  | missed => rfl
  | answered entries answer => cases h

theorem stepsLeft_eq_zero : r.stepsLeft = 0 ↔ r.entries?.isSome := by
  obtain ⟨key, merge, progress⟩ := r
  cases progress <;> simp [stepsLeft, entries?]

theorem stepsLeft_le_two (r : Request) : r.stepsLeft ≤ 2 := by
  obtain ⟨key, merge, progress⟩ := r
  cases progress <;> simp [stepsLeft]

/-- A request that was not answered gets nearer to its answer with each step. -/
theorem stepsLeft_step (r : Request) (c : MergeCache) :
    (r.step c).1.stepsLeft ≤ r.stepsLeft - 1 := by
  obtain ⟨key, merge, progress⟩ := r
  cases progress with
  | waiting =>
    unfold step
    simp only
    split <;> simp [stepsLeft]
  | missed => exact Nat.le_refl _
  | answered entries answer => exact Nat.le_refl _

/-- What is kept stays as it is. -/
theorem lookUp?_step (r : Request) {key : MergeKey} (h : c.lookUp? key = some entries) :
    (r.step c).2.lookUp? key = some entries := by
  rcases r.step_cases c with ⟨hcache, -⟩ | ⟨found, -, -, hstep⟩ | ⟨-, hfree, hstep⟩
  · rw [hcache, h]
  · rw [hstep]
    exact h
  · rw [hstep]
    exact MergeCache.lookUp?_fill_of_eq_some hfree h _

/-- A step counts the key that the request asked for if it is answered by the step. -/
theorem tally_step (r : Request) {asked : List MergeKey} (h : c.Tally (r.asked?.toList ++ asked)) :
    (r.step c).2.Tally ((r.step c).1.asked?.toList ++ asked) := by
  rcases r.step_cases c with
    ⟨hcache, hkey, -, hentries, -⟩ | ⟨entries, hnone, hlook, hstep⟩ | ⟨hnone, hlook, hstep⟩
  · have hasked : (r.step c).1.asked? = r.asked? := by simp only [asked?, hentries, hkey]
    rwa [hcache, hasked]
  · have hasked : r.asked? = none := by simp [asked?, hnone]
    rw [hasked] at h
    rw [hstep]
    apply h.countHit
    simp [hlook]
  · have hasked : r.asked? = none := by simp [asked?, hnone]
    rw [hasked] at h
    rw [hstep]
    exact h.fill hlook _

/-- A step that computes entries keeps them, and any other step keeps nothing. -/
theorem filled_step (r : Request) {filled : List (MergeKey × List Entry)}
    (h : (r.filled?.toList ++ filled).Perm c.kept) :
    ((r.step c).1.filled?.toList ++ filled).Perm (r.step c).2.kept := by
  rcases r.step_cases c with
    ⟨hcache, hkey, hmerge, -, hcomputed⟩ | ⟨entries, hnone, -, hstep⟩ | ⟨hnone, -, hstep⟩
  · have hfilled : (r.step c).1.filled? = r.filled? := by
      simp only [filled?, hcomputed, hkey, hmerge]
    rwa [hcache, hfilled]
  · have hfilled : r.filled? = none := by simp [filled?, computed_eq_false hnone]
    rw [hfilled] at h
    rw [hstep]
    exact h
  · have hfilled : r.filled? = none := by simp [filled?, computed_eq_false hnone]
    rw [hfilled] at h
    rw [hstep]
    exact h.cons (r.key, r.merge ())

/-- A request that was answered has got what is kept under its key. -/
def Agrees (r : Request) (c : MergeCache) : Prop :=
  ∀ entries, r.entries? = some entries → c.lookUp? r.key = some entries

theorem Agrees.step (h : r.Agrees c) : (r.step c).1.Agrees (r.step c).2 := by
  rcases r.step_cases c with
    ⟨hcache, hkey, -, hentries, -⟩ | ⟨entries, -, hlook, hstep⟩ | ⟨-, -, hstep⟩
  · intro entries hsome
    rw [hentries] at hsome
    rw [hcache, hkey]
    exact h entries hsome
  · rw [hstep]
    rintro _ ⟨⟩
    exact hlook
  · rw [hstep]
    rintro _ ⟨⟩
    show (c.fill r.key (r.merge ())).lookUp? r.key = some (r.merge ())
    rw [MergeCache.lookUp?_fill, if_pos rfl]

/-- Steps of other requests leave a request with what is kept. -/
theorem Agrees.step_other {q : Request} (h : q.Agrees c) (r : Request) :
    q.Agrees (r.step c).2 :=
  fun entries hsome => r.lookUp?_step (h entries hsome)

end Request

/-! ### Pools of requests -/

/-- Requests with the cache that they share. -/
structure RequestPool where
  /-- The requests. -/
  requests : List Request
  /-- The cache. -/
  cache : MergeCache

namespace RequestPool

/-- The pool before its first step, with nothing kept. -/
def start (asks : List (MergeKey × (Unit → List Entry))) : RequestPool :=
  ⟨asks.map fun a => { key := a.1, merge := a.2 }, .empty⟩

/-- Let one request take a step. -/
def step (pool : RequestPool) (i : ℕ) : RequestPool :=
  match pool.requests[i]? with
  | none => pool
  | some r => ⟨pool.requests.set i (r.step pool.cache).1, (r.step pool.cache).2⟩

/-- Let the requests that a schedule lists take a step each, one after the other. -/
def run (pool : RequestPool) (schedule : List ℕ) : RequestPool := schedule.foldl step pool

theorem run_cons (pool : RequestPool) (i : ℕ) (schedule : List ℕ) :
    pool.run (i :: schedule) = (pool.step i).run schedule := rfl

/-- What the requests ask for. -/
def asks (pool : RequestPool) : List (MergeKey × (Unit → List Entry)) :=
  pool.requests.map fun r => (r.key, r.merge)

variable {pool : RequestPool} {entries : List Entry} {key : MergeKey}

/-- A step changes nothing or one request. -/
theorem step_cases (pool : RequestPool) (i : ℕ) :
    pool.step i = pool ∨ ∃ front r rest, pool.requests = front ++ r :: rest ∧
      pool.step i = ⟨front ++ (r.step pool.cache).1 :: rest, (r.step pool.cache).2⟩ := by
  unfold step
  cases hi : pool.requests[i]? with
  | none => exact .inl rfl
  | some r =>
    obtain ⟨hlt, rfl⟩ := List.getElem?_eq_some_iff.1 hi
    obtain ⟨front, rest, hsplit, -, hset⟩ := List.exists_of_set hlt
    refine .inr ⟨front, _, rest, hsplit, ?_⟩
    simp only
    rw [hset]

/-! ### The invariant -/

/-- What is kept was computed, each key once, by requests that got what is kept; and the cache has
counted the requests that were answered. -/
structure Sound (pool : RequestPool) : Prop where
  /-- The counters fit the keys of the answered requests. -/
  tally : pool.cache.Tally (pool.requests.filterMap Request.asked?)
  /-- What is kept is what requests have computed. -/
  filled : (pool.requests.filterMap Request.filled?).Perm pool.cache.kept
  /-- Answers are what is kept. -/
  agree : ∀ r ∈ pool.requests, r.Agrees pool.cache

theorem sound_start (asks : List (MergeKey × (Unit → List Entry))) : (start asks).Sound := by
  have hasked : (start asks).requests.filterMap Request.asked? = [] := by
    unfold start
    rw [List.filterMap_map, List.filterMap_eq_nil_iff]
    intro a _
    rfl
  have hfilled : (start asks).requests.filterMap Request.filled? = [] := by
    unfold start
    rw [List.filterMap_map, List.filterMap_eq_nil_iff]
    intro a _
    rfl
  refine ⟨?_, ?_, ?_⟩
  · rw [hasked]
    exact MergeCache.tally_empty
  · rw [hfilled]
    exact .nil
  · intro r hr entries h
    obtain ⟨a, -, rfl⟩ := List.mem_map.1 hr
    cases h

/-- A step keeps the invariant. -/
theorem Sound.step (h : pool.Sound) (i : ℕ) : (pool.step i).Sound := by
  rcases pool.step_cases i with heq | ⟨front, r, rest, hsplit, heq⟩
  · rwa [heq]
  have htally := h.tally
  have hfilled := h.filled
  have hagree := h.agree
  rw [hsplit] at htally hfilled hagree
  rw [heq]
  refine ⟨?_, ?_, ?_⟩
  · have hasked (r : Request) := filterMap_middle_perm Request.asked? front rest r
    exact (r.tally_step (htally.of_perm (hasked r))).of_perm (hasked _).symm
  · have hfill (r : Request) := filterMap_middle_perm Request.filled? front rest r
    exact (hfill _).trans (r.filled_step ((hfill r).symm.trans hfilled))
  · rw [List.forall_mem_append, List.forall_mem_cons] at hagree ⊢
    obtain ⟨hfront, hr, hrest⟩ := hagree
    exact ⟨fun q hq => (hfront q hq).step_other r, hr.step, fun q hq => (hrest q hq).step_other r⟩

/-- Every run keeps the invariant. -/
theorem Sound.run (h : pool.Sound) (schedule : List ℕ) : (pool.run schedule).Sound := by
  induction schedule generalizing pool with
  | nil => exact h
  | cons i schedule ih => exact ih (h.step i)

/-! ### What a run keeps -/

/-- What is kept at some time of a run is kept for the rest of it. -/
theorem lookUp?_run (h : pool.cache.lookUp? key = some entries) (schedule : List ℕ) :
    (pool.run schedule).cache.lookUp? key = some entries := by
  induction schedule generalizing pool with
  | nil => exact h
  | cons i schedule ih =>
    apply ih
    rcases pool.step_cases i with heq | ⟨front, r, rest, -, heq⟩
    · rwa [heq]
    · rw [heq]
      exact r.lookUp?_step h

/-- A run changes nothing about what the requests ask for. -/
theorem asks_run (pool : RequestPool) (schedule : List ℕ) :
    (pool.run schedule).asks = pool.asks := by
  induction schedule generalizing pool with
  | nil => rfl
  | cons i schedule ih =>
    rw [run_cons, ih]
    rcases pool.step_cases i with heq | ⟨front, r, rest, hsplit, heq⟩
    · rw [heq]
    · have hasks : ((r.step pool.cache).1.key, (r.step pool.cache).1.merge) = (r.key, r.merge) := by
        rcases r.step_cases pool.cache with
          ⟨-, hkey, hmerge, -⟩ | ⟨found, -, -, hstep⟩ | ⟨-, -, hstep⟩
        · rw [hkey, hmerge]
        · rw [hstep]
        · rw [hstep]
      rw [heq]
      unfold asks
      rw [hsplit, List.map_append, List.map_append, List.map_cons, List.map_cons, hasks]

theorem asks_start (asks : List (MergeKey × (Unit → List Entry))) : (start asks).asks = asks := by
  unfold RequestPool.asks start
  rw [List.map_map]
  exact List.map_id asks

/-! ### Progress -/

/-- Each step of a request brings it nearer to its answer, and those of others do not change how far
it is. -/
theorem stepsLeft_run {i : ℕ} {r : Request} (schedule : List ℕ)
    (h : (pool.run schedule).requests[i]? = some r) :
    ∃ r₀, pool.requests[i]? = some r₀ ∧ r.stepsLeft ≤ r₀.stepsLeft - schedule.count i := by
  induction schedule generalizing pool with
  | nil => exact ⟨r, h, Nat.le_refl _⟩
  | cons j schedule ih =>
    rw [run_cons] at h
    obtain ⟨r₁, hr₁, hle⟩ := ih h
    unfold step at hr₁
    cases hj : pool.requests[j]? with
    | none =>
      rw [hj] at hr₁
      have hij : j ≠ i := by
        rintro rfl
        rw [hj] at hr₁
        cases hr₁
      exact ⟨r₁, hr₁, by rwa [List.count_cons_of_ne hij]⟩
    | some q =>
      simp only [hj] at hr₁
      by_cases hij : j = i
      · subst hij
        have hlt : j < pool.requests.length := (List.getElem?_eq_some_iff.1 hj).1
        rw [List.getElem?_set_self hlt] at hr₁
        obtain rfl := Option.some.inj hr₁
        have hstep := q.stepsLeft_step pool.cache
        refine ⟨q, hj, ?_⟩
        rw [List.count_cons_self]
        omega
      · rw [List.getElem?_set_ne hij] at hr₁
        exact ⟨r₁, hr₁, by rwa [List.count_cons_of_ne hij]⟩

/-- A request that has taken two steps is answered. -/
theorem answered_of_two_le_count {i : ℕ} {r : Request} {schedule : List ℕ}
    (h : (pool.run schedule).requests[i]? = some r) (hcount : 2 ≤ schedule.count i) :
    r.entries?.isSome := by
  obtain ⟨r₀, -, hle⟩ := stepsLeft_run schedule h
  have htwo := r₀.stepsLeft_le_two
  apply Request.stepsLeft_eq_zero.1
  omega

/-! ### The protocol -/

/-- The keys of the requests that computed something are the keys kept. -/
theorem Sound.keys_computed_perm (h : pool.Sound) :
    ((pool.requests.filter (·.computed)).map (·.key)).Perm (pool.cache.kept.map (·.1)) := by
  have hkeys : (pool.requests.filterMap Request.filled?).map (·.1) =
      (pool.requests.filter (·.computed)).map (·.key) := by
    generalize pool.requests = requests
    induction requests with
    | nil => rfl
    | cons r rs ih =>
      cases hr : r.computed <;> simp [Request.filled?, hr, ih]
  rw [← hkeys]
  exact h.filled.map _

/-- What is kept was computed by a request for its key. -/
theorem Sound.exists_computed (h : pool.Sound) (hlook : pool.cache.lookUp? key = some entries) :
    ∃ r ∈ pool.requests, r.key = key ∧ r.computed ∧ r.merge () = entries := by
  have hmem : (key, entries) ∈ pool.cache.kept := by
    obtain ⟨front, rest, hsplit, -⟩ := List.lookup_eq_some_iff.1 hlook
    rw [hsplit]
    exact List.mem_append_right _ List.mem_cons_self
  obtain ⟨r, hr, hfilled⟩ := List.mem_filterMap.1 (h.filled.mem_iff.2 hmem)
  unfold Request.filled? at hfilled
  split at hfilled
  · next hcomputed =>
    obtain ⟨rfl, rfl⟩ := Prod.mk.inj (Option.some.inj hfilled)
    exact ⟨r, hr, rfl, hcomputed, rfl⟩
  · cases hfilled

/-- When all requests are answered, as many have missed as there are distinct keys. -/
theorem Sound.counters_of_answered (h : pool.Sound)
    (hall : ∀ r ∈ pool.requests, r.entries?.isSome) :
    pool.cache.misses = pool.cache.size ∧
      pool.cache.size = (pool.requests.map (·.key)).dedup.length ∧
      pool.cache.hits + pool.cache.misses = pool.requests.length := by
  have hasked : pool.requests.filterMap Request.asked? = pool.requests.map (·.key) := by
    rw [← List.filterMap_eq_map]
    apply List.filterMap_congr
    intro r hr
    simp [Request.asked?, hall r hr]
  have htally := h.tally
  rw [hasked] at htally
  refine ⟨htally.missed, htally.size_eq, ?_⟩
  rw [htally.answered, List.length_map]

/-- Let requests, each with a key and a way to compute entries, take their steps in the order of any
schedule.  For each key at most one of them computes its entries; all that are answered have got
what is kept under their key; and what is kept under a key was computed by a request for this key
and is never replaced.  A schedule that gives each request two steps answers all of them, and once
all are answered each distinct key was missed once and is kept, and all other requests have hit. -/
theorem requests_compute_once (asks : List (MergeKey × (Unit → List Entry))) (schedule : List ℕ) :
    let pool := (start asks).run schedule
    pool.requests.map (fun r => (r.key, r.merge)) = asks ∧
    ((pool.requests.filter (·.computed)).map (·.key)).Nodup ∧
    (∀ r ∈ pool.requests, ∀ entries, r.entries? = some entries →
      pool.cache.lookUp? r.key = some entries) ∧
    (∀ key entries, pool.cache.lookUp? key = some entries →
      (∃ r ∈ pool.requests, r.key = key ∧ r.computed ∧ r.merge () = entries) ∧
      ∀ more, (pool.run more).cache.lookUp? key = some entries) ∧
    ((∀ i < asks.length, 2 ≤ schedule.count i) → ∀ r ∈ pool.requests, r.entries?.isSome) ∧
    ((∀ r ∈ pool.requests, r.entries?.isSome) →
      pool.cache.misses = pool.cache.size ∧
      pool.cache.size = (asks.map (·.1)).dedup.length ∧
      pool.cache.hits + pool.cache.misses = asks.length) := by
  intro pool
  have hsound := (sound_start asks).run schedule
  have hasks := (asks_run (start asks) schedule).trans (asks_start asks)
  unfold RequestPool.asks at hasks
  have hlength := congrArg List.length hasks
  rw [List.length_map] at hlength
  refine ⟨hasks, hsound.keys_computed_perm.nodup_iff.2 hsound.tally.nodup, hsound.agree, ?_, ?_, ?_⟩
  · intro key entries hlook
    exact ⟨hsound.exists_computed hlook, lookUp?_run hlook⟩
  · intro htwo r hr
    obtain ⟨i, hi⟩ := List.mem_iff_getElem?.1 hr
    apply answered_of_two_le_count hi
    apply htwo i
    rw [← hlength]
    exact (List.getElem?_eq_some_iff.1 hi).1
  · intro hall
    obtain ⟨hmissed, hsize, hanswered⟩ := hsound.counters_of_answered hall
    have hkeys := congrArg (List.map Prod.fst) hasks
    rw [List.map_map] at hkeys
    refine ⟨hmissed, ?_, hanswered.trans hlength⟩
    rw [hsize, ← hkeys]
    rfl

/-- Two requests for one key that would compute different entries. -/
def rivalAsks : List (MergeKey × (Unit → List Entry)) :=
  [(⟨⟨List.replicate 32 0, rfl⟩⟩, fun _ => [⟨.dex 1, .empty, .compressed⟩]),
    (⟨⟨List.replicate 32 0, rfl⟩⟩, fun _ => [⟨.dex 1, .empty, .uncompressed⟩])]

/-- Both requests miss the key before the second one fills it, and both get what the second one
computed. -/
theorem requests_compute_once_rivals :
    (∀ i < rivalAsks.length, 2 ≤ [0, 1, 1, 0].count i) ∧
      (((start rivalAsks).run [0, 1, 1, 0]).requests.map (·.entries?) =
        [some [⟨.dex 1, .empty, .uncompressed⟩], some [⟨.dex 1, .empty, .uncompressed⟩]]) ∧
      ((start rivalAsks).run [0, 1, 1, 0]).cache.misses =
        ((start rivalAsks).run [0, 1, 1, 0]).cache.size ∧
      ((start rivalAsks).run [0, 1, 1, 0]).cache.size = 1 ∧
      ((start rivalAsks).run [0, 1, 1, 0]).cache.hits = 1 := by
  have htwo : ∀ i < rivalAsks.length, 2 ≤ [0, 1, 1, 0].count i := by decide
  obtain ⟨-, -, -, -, hanswered, hcounters⟩ := requests_compute_once rivalAsks [0, 1, 1, 0]
  obtain ⟨hmissed, hsize, hhits⟩ := hcounters (hanswered htwo)
  have hkeys : (rivalAsks.map (·.1)).dedup.length = 1 := by simp [rivalAsks]
  rw [hkeys] at hsize
  refine ⟨htwo, rfl, hmissed, hsize, ?_⟩
  have hlength : rivalAsks.length = 2 := rfl
  omega

end RequestPool
end BundlePackaging
