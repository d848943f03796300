import BundlePackaging.Proofs.Injection
import BundlePackaging.Proofs.Scheduling
import BundlePackaging.Proofs.Sharding

/-!
# The list of packages

A run makes one package for each choice of one observed value along each dimension along which
there are any, in lexicographic order.  The targeting of a package is united from the targetings of
the fragments of its shard: each value of the point is that of some fragment, and no fragment brings
another one.  Name and manifest are those of one module, the same for all packages.

The packages stand in the order of their shards whether the shards are merged one after the other or
by workers on any schedule.

## Main definitions

* `Observed` — a value that some fragment of a bundle has.
* `IsCombination` — a targeting that chooses among the observed values.
* `leadModule?` — the module that names the packages.
* `Pool.Made` — what workers have made so far was made of their shards.

## Main results

* `isCombination_iff_mem_runPoints` — the points of a bundle are its combinations.
* `IsPackage.values_targeting` — the targeting of a package names the values of its point.
* `IsPackage.of_leadModule` — the name and the manifest of a package.
* `Pool.Made.forall₂_isPackage` — workers make the packages of their shards, in their order.
* `package_list_shape` — **the list of packages.**
-/

namespace BundlePackaging

variable {p : Policy} {m : BundleModule} {modules : List BundleModule} {dims : SortedSet Dimension}
  {fragments : List Fragment} {f : Fragment} {v : Value} {d : Dimension} {point : List Value}
  {t : Targeting} {i : ℕ}

/-! ### Combinations -/

/-- Some fragment of the bundle has the value. -/
def Observed (p : Policy) (modules : List BundleModule) (v : Value) : Prop :=
  ∃ f ∈ runFragments p modules, v ∈ f.targeting.values

/-- A targeting names observed values along the dimensions of standalone packages, and one along
each of them along which there are any. -/
structure IsCombination (p : Policy) (modules : List BundleModule) (t : Targeting) : Prop where
  /-- The values named are observed, along dimensions of standalone packages. -/
  observed : ∀ v ∈ t.values, v.dimension ∈ p.standaloneDimensions ∧ Observed p modules v
  /-- No such dimension is left out along which a value is observed. -/
  complete : ∀ v, v.dimension ∈ p.standaloneDimensions → Observed p modules v →
    (t.get? v.dimension).isSome

/-- The values that some fragment of a bundle has are those that some targeted fragment has. -/
theorem observedIn_runFragments : ObservedIn (runFragments p modules) v ↔ Observed p modules v := by
  unfold ObservedIn Observed
  constructor
  · rintro ⟨f, hf, -, hv⟩
    exact ⟨f, hf, hv⟩
  · rintro ⟨f, hf, hv⟩
    refine ⟨f, hf, ?_, hv⟩
    -- a fragment with a value is not for every device
    obtain ⟨m, -, hpart⟩ := mem_bundleFragments.1 hf
    rcases Policy.mem_partition.1 hpart with rfl | ⟨w, -, rfl⟩
    · rw [Targeting.mem_values] at hv
      exact absurd hv (by simp [Fragment.ofMaster])
    · rfl

/-- A targeting is a combination just when its values are a point of the bundle. -/
theorem isCombination_iff_mem_runPoints :
    IsCombination p modules t ↔ t.values ∈ runPoints p modules := by
  unfold runPoints
  rw [mem_points_observedAxes_iff]
  constructor
  · intro h
    refine ⟨t.byDimension_values, ?_, ?_⟩
    · intro v hv
      obtain ⟨hd, hobserved⟩ := h.observed v hv
      exact ⟨hd, observedIn_runFragments.2 hobserved⟩
    · intro v hd hv
      obtain ⟨w, hw⟩ :=
        Option.isSome_iff_exists.1 (h.complete v hd (observedIn_runFragments.1 hv))
      exact ⟨w, Targeting.get?_eq_some_iff.1 hw⟩
  · intro h
    constructor
    · intro v hv
      obtain ⟨hd, hobserved⟩ := h.observed v hv
      exact ⟨hd, observedIn_runFragments.1 hobserved⟩
    · intro v hd hv
      obtain ⟨w, hw⟩ := h.complete v hd (observedIn_runFragments.2 hv)
      rw [Targeting.get?_eq_some_iff.2 hw]
      rfl

namespace IsCombination

/-- A combination names values along the dimensions of standalone packages alone. -/
theorem get?_eq_none (h : IsCombination p modules t) (hd : d.isStandaloneAxis = false) :
    t.get? d = none := by
  cases hget : t.get? d with
  | none => rfl
  | some v =>
    obtain ⟨hv, rfl⟩ := Targeting.get?_eq_some_iff.1 hget
    have hmem := SortedSet.mem_def.1 (h.observed v hv).1
    unfold Policy.standaloneDimensions at hmem
    rw [SortedSet.toList_filter, List.mem_filter] at hmem
    rw [hmem.2] at hd
    cases hd

end IsCombination

/-! ### The module that names the packages -/

/-- The module whose name and manifest the packages of a bundle have: the first base module, or the
first module if there is no base module. -/
def leadModule? (modules : List BundleModule) : Option BundleModule :=
  (modules.find? (·.isBase)).or modules.head?

theorem Policy.manifest_of_mem_partition (h : f ∈ p.partition m dims) :
    f.manifest = m.manifest := by
  rcases mem_partition.1 h with rfl | ⟨v, -, rfl⟩
  · rfl
  · rfl

section Representative

variable {s : Storage} {g : Gathered}

/-- Every module has a fragment in the shard of every point. -/
theorem exists_fragment_of_gather
    (h : (ModuleOrder.gather (.ofModules modules) (shardAt (bundleFragments p modules dims) i
      point) s).1 = .ok g) (hm : m ∈ modules) : ∃ f ∈ g.first :: g.others, f.module = m.name := by
  rw [← (ModuleOrder.of_gather_eq_ok h).2.1]
  refine ⟨.ofMaster m.name m.manifest (Policy.entriesAt (p.placements m dims) none), ?_, rfl⟩
  rw [ModuleOrder.mem_arrange, mem_fragments_shardAt, mem_bundleFragments]
  exact ⟨⟨m, hm, Policy.mem_partition.2 (.inl rfl)⟩, appliesTo_ofMaster⟩

/-- The fragments that are read have the manifests of their modules. -/
theorem manifest_of_gather (hdistinct : (modules.map (·.name)).Nodup)
    (h : (ModuleOrder.gather (.ofModules modules) (shardAt (bundleFragments p modules dims) i
      point) s).1 = .ok g) (hm : m ∈ modules) (hf : f ∈ g.first :: g.others)
    (hname : f.module = m.name) : f.manifest = m.manifest := by
  rw [← (ModuleOrder.of_gather_eq_ok h).2.1, ModuleOrder.mem_arrange, mem_fragments_shardAt,
    mem_bundleFragments] at hf
  obtain ⟨⟨m', hm', hf⟩, -⟩ := hf
  rw [Policy.module_of_mem_partition hf] at hname
  obtain rfl := List.inj_on_of_nodup_map hdistinct hm' hm hname
  exact Policy.manifest_of_mem_partition hf

/-- The first fragment that is read is of the first module. -/
theorem module_first_of_gather {rest : List BundleModule}
    (h : (ModuleOrder.gather (.ofModules (m :: rest)) (shardAt (bundleFragments p (m :: rest) dims)
      i point) s).1 = .ok g) : g.first.module = m.name := by
  obtain ⟨f, hf, hname⟩ := exists_fragment_of_gather h List.mem_cons_self
  have hsorted := ModuleOrder.pairwise_position_arrange (.ofModules (m :: rest))
    (shardAt (bundleFragments p (m :: rest) dims) i point).fragments
  rw [(ModuleOrder.of_gather_eq_ok h).2.1, List.pairwise_cons] at hsorted
  rcases List.mem_cons.1 hf with rfl | hf
  · exact hname
  · -- no position is smaller than that of the first module
    have hzero : (ModuleOrder.ofModules (m :: rest)).position g.first.module = 0 := by
      have hle := hsorted.1 f hf
      rw [hname] at hle
      have hposition : (ModuleOrder.ofModules (m :: rest)).position m.name = 0 :=
        List.idxOf_cons_self
      omega
    by_contra hne
    unfold ModuleOrder.position ModuleOrder.ofModules at hzero
    rw [List.map_cons, List.idxOf_cons_ne _ (Ne.symm hne)] at hzero
    cases hzero

/-- The fragment that gives a package its name and its manifest is one of the leading module. -/
theorem representative_of_gather (hdistinct : (modules.map (·.name)).Nodup)
    (hmodules : modules ≠ [])
    (h : (ModuleOrder.gather (.ofModules modules) (shardAt (bundleFragments p modules dims) i
      point) s).1 = .ok g) :
    ∃ m, leadModule? modules = some m ∧
      (g.representative (ModuleOrder.ofModules modules).base).module = m.name ∧
      (g.representative (ModuleOrder.ofModules modules).base).manifest = m.manifest := by
  unfold leadModule? Gathered.representative ModuleOrder.ofModules
  cases hbase : modules.find? (·.isBase) with
  | some b =>
    have hb := List.mem_of_find?_eq_some hbase
    obtain ⟨f, hf, hname⟩ := exists_fragment_of_gather h hb
    obtain ⟨f', hfind⟩ : ∃ f', (g.first :: g.others).find? (fun f => some b.name = some f.module) =
        some f' := by
      rw [← Option.isSome_iff_exists, List.find?_isSome]
      exact ⟨f, hf, by simp [hname]⟩
    have hname' : f'.module = b.name := by
      have hfound := List.find?_some hfind
      simpa [eq_comm] using hfound
    refine ⟨b, rfl, ?_⟩
    simp only [Option.map_some, hfind, Option.getD_some]
    exact ⟨hname', manifest_of_gather hdistinct h hb (List.mem_of_find?_eq_some hfind) hname'⟩
  | none =>
    obtain ⟨m, rest, rfl⟩ := List.exists_cons_of_ne_nil hmodules
    have hname := module_first_of_gather h
    refine ⟨m, rfl, ?_⟩
    have hfind : (g.first :: g.others).find? (fun f => (none : Option String) = some f.module) =
        none := by simp
    simp only [Option.map_none, hfind, Option.getD_none]
    exact ⟨hname, manifest_of_gather hdistinct h List.mem_cons_self List.mem_cons_self hname⟩

end Representative

/-! ### One package -/

namespace IsPackage

variable {stamp : Option String} {metadata : BundleMetadata} {restrictV3 : Bool} {s : Storage}
  {g : Gathered} {P : Fragment}

/-- The targeting of a package names the values of the point of its shard, and no others. -/
theorem values_targeting
    (h : IsPackage (.ofModules modules) (standaloneInjectors restrictV3 stamp metadata) s
      (shardAt (bundleFragments p modules dims) i point) g P)
    (hpoint : point ∈ points (observedAxes dims (bundleFragments p modules dims))) :
    P.targeting.values = point := by
  apply P.targeting.byDimension_values.eq_of_mem_iff (byDimension_of_mem_points hpoint)
  intro v
  obtain ⟨l, rfl⟩ := h.made
  rw [Targeting.mem_values, targeting_finished]
  exact get?_eq_some_iff_mem_point hpoint (ModuleOrder.of_gather_eq_ok h.read).2.2.1

/-- A package is offered to the devices it is for, and has the name and, apart from the stamp, the
manifest of the leading module. -/
theorem of_leadModule
    (h : IsPackage (.ofModules modules) (standaloneInjectors restrictV3 stamp metadata) s
      (shardAt (bundleFragments p modules dims) i point) g P)
    (hdistinct : (modules.map (·.name)).Nodup) (hmodules : modules ≠ []) :
    P.variant.targeting = P.targeting ∧ ∃ m, leadModule? modules = some m ∧
      P.module = m.name ∧ P.manifest.package = m.manifest.package ∧
      P.manifest.attributes = m.manifest.attributes ∧
      ∀ key, key ≠ stampSourceKey → key ≠ stampTypeKey →
        P.manifest.metadata? key = m.manifest.metadata? key := by
  obtain ⟨m, hlead, hname, hmanifest⟩ := representative_of_gather hdistinct hmodules h.read
  obtain ⟨l, hmade⟩ := h.made
  obtain ⟨es, hfinished⟩ := finished_eq restrictV3 stamp metadata
    (g.fragmentWith (.ofModules modules) (renumber l))
  rw [hfinished] at hmade
  have hstamp := ((g.fragmentWith (.ofModules modules) (renumber l)).asStandalone
    restrictV3).manifest_withOptionalStamp stamp
  have hmerged : ((g.fragmentWith (.ofModules modules) (renumber l)).asStandalone
      restrictV3).manifest = m.manifest := hmanifest
  rw [hmerged] at hstamp
  subst hmade
  refine ⟨?_, m, hlead, ?_, hstamp⟩
  · cases stamp <;> rfl
  · cases stamp <;> exact hname

end IsPackage

/-! ### Workers on a schedule -/

section Workers

variable {o : ModuleOrder} {chain : List Injector} {k : Worker} {w : Workbench} {pool : Pool}
  {shards : List Shard} {packages : List Fragment}

/-- What a worker has read and made is of its shard. -/
def Worker.Made (o : ModuleOrder) (chain : List Injector) (k : Worker) : Prop :=
  match k.progress with
  | .waiting | .failed _ => True
  | .gathered g | .missed g => ∃ t, (o.gather k.shard t).1 = .ok g
  | .finished package => ∃ t g, IsPackage o chain t k.shard g package

/-- What a worker reads and makes in a step is of its shard, and what it keeps is renumbered. -/
theorem Worker.Made.step (h : k.Made o chain) (hcache : w.cache.Holds fun _ => True) :
    (k.step o chain w).1.Made o chain ∧
      (k.step o chain w).2.cache.Holds fun _ => True := by
  obtain ⟨shard, progress⟩ := k
  have hfinish : ∀ g, (∃ t, (o.gather shard t).1 = .ok g) →
      (Worker.finish o chain g ⟨shard, progress⟩ w).1.Made o chain ∧
        (Worker.finish o chain g ⟨shard, progress⟩ w).2.cache.Holds fun _ => True := by
    rintro g ⟨t, hread⟩
    obtain ⟨hkept, l, -, -, hsegments⟩ := g.segments_of_holds hcache trivial
    refine ⟨⟨t, g, hread, l, ?_⟩, hkept⟩
    rw [← hsegments]
    rfl
  cases progress with
  | waiting =>
    unfold Worker.step
    rcases hread : o.gather shard w.storage with ⟨fault | g, t⟩
    · exact ⟨trivial, hcache⟩
    · exact ⟨⟨w.storage, by rw [hread]⟩, hcache⟩
  | gathered g =>
    unfold Worker.step
    simp only
    split
    · exact ⟨h, hcache⟩
    · exact hfinish g h
  | missed g => exact hfinish g h
  | finished package => exact ⟨h, hcache⟩
  | failed fault => exact ⟨h, hcache⟩

namespace Pool

/-- The workers have their shards, and what they have made is of these; the cache has renumbered
segments. -/
structure Made (o : ModuleOrder) (chain : List Injector) (shards : List Shard) (pool : Pool) :
    Prop where
  /-- The workers keep their shards. -/
  shards_eq : pool.workers.map (·.shard) = shards
  /-- What a worker has made is of its shard. -/
  workers : ∀ k ∈ pool.workers, k.Made o chain
  /-- The cache has renumbered segments. -/
  cache : pool.bench.cache.Holds fun _ => True

theorem made_start (o : ModuleOrder) (chain : List Injector) (shards : List Shard) (s : Storage) :
    (start shards s).Made o chain shards := by
  refine ⟨?_, ?_, MergeCache.holds_empty⟩
  · unfold start
    rw [List.map_map]
    exact List.map_id shards
  · intro k hk
    obtain ⟨shard, -, rfl⟩ := List.mem_map.1 hk
    exact trivial

/-- A step keeps the invariant. -/
theorem Made.step (h : pool.Made o chain shards) (i : ℕ) :
    (pool.step o chain i).Made o chain shards := by
  have hshards := (map_shard_step o chain pool i).trans h.shards_eq
  rcases step_cases o chain pool i with heq | ⟨front, k, rest, hsplit, heq⟩
  · rwa [heq]
  have hworkers := h.workers
  rw [hsplit, List.forall_mem_append, List.forall_mem_cons] at hworkers
  obtain ⟨hfront, hk, hrest⟩ := hworkers
  obtain ⟨hmade, hcache⟩ := hk.step h.cache
  rw [heq] at hshards ⊢
  refine ⟨hshards, ?_, hcache⟩
  rw [List.forall_mem_append, List.forall_mem_cons]
  exact ⟨hfront, hmade, hrest⟩

/-- Every run keeps the invariant. -/
theorem Made.run (h : pool.Made o chain shards) (schedule : List ℕ) :
    (pool.run o chain schedule).Made o chain shards := by
  induction schedule generalizing pool with
  | nil => exact h
  | cons i schedule ih => exact ih (h.step i)

/-- Workers make the packages of their shards, in the order of these. -/
theorem Made.forall₂_isPackage (h : pool.Made o chain shards)
    (hpackages : pool.packages? = some packages) :
    List.Forall₂ (fun shard P => ∃ t g, IsPackage o chain t shard g P) shards packages := by
  rw [← h.shards_eq, List.forall₂_map_left_iff]
  have hmade := (List.forall₂_and_left _ _).2 ⟨h.workers, forall₂_of_mapM_eq_some hpackages⟩
  apply hmade.imp
  rintro ⟨shard, progress⟩ P ⟨hworker, hpackage⟩
  cases progress with
  | finished package =>
    obtain rfl := Option.some.inj hpackage
    exact hworker
  | waiting => cases hpackage
  | gathered g => cases hpackage
  | missed g => cases hpackage
  | failed fault => cases hpackage

end Pool
end Workers

/-! ### The packages of a run -/

section Packages

variable {stamp : Option String} {metadata : BundleMetadata} {workers : Workers} {s : Storage}
  {packages : List Fragment}

/-- A run, in order or on some schedule, has made the packages of a bundle. -/
def Generated (p : Policy) (stamp : Option String) (metadata : BundleMetadata) (workers : Workers)
    (modules : List BundleModule) (s : Storage) (packages : List Fragment) : Prop :=
  (generatePackages p stamp metadata workers modules s).result = .ok packages ∨
    ∃ found schedule, shards p.standaloneDimensions (runFragments p modules) = .ok found ∧
      (scheduledRun p stamp metadata modules s found schedule).packages? = some packages

/-- If packages were made the modules have distinct names, and there is a package for each point, in
the order of the points. -/
theorem Generated.forall₂_isPackage (hmodules : modules ≠ [])
    (h : Generated p stamp metadata workers modules s packages) :
    (modules.map (·.name)).Nodup ∧ List.Forall₂ (fun point P => ∃ i t g,
      IsPackage (.ofModules modules) (standaloneInjectors p.restrictV3Signing stamp metadata) t
        (shardAt (runFragments p modules) i point) g P) (runPoints p modules) packages := by
  obtain ⟨found, hfound, hmade⟩ : ∃ found,
      shards p.standaloneDimensions (runFragments p modules) = .ok found ∧
      List.Forall₂ (fun shard P => ∃ t g, IsPackage (.ofModules modules)
        (standaloneInjectors p.restrictV3Signing stamp metadata) t shard g P) found packages := by
    rcases h with h | ⟨found, schedule, hfound, h⟩
    · obtain ⟨found, hfound, h⟩ := finishShards_of_generatePackages h
      have hmade := forall₂_isPackage_of_finishShards (I := fun _ => True)
        (fun _ _ _ _ => trivial) trivial MergeCache.holds_empty h
      exact ⟨found, hfound, hmade.imp fun shard P ⟨t, g, _, hpackage⟩ => ⟨t, g, hpackage⟩⟩
    · exact ⟨found, hfound, ((Pool.made_start _ _ found s).run schedule).forall₂_isPackage h⟩
  have hshards := shards_bundleFragments p p.standaloneDimensions hmodules
  unfold runFragments at hfound
  rw [hfound] at hshards
  cases hrepeated : firstRepeated? (·.name) [] modules with
  | some m =>
    rw [hrepeated] at hshards
    cases hshards
  | none =>
    rw [hrepeated] at hshards
    obtain rfl := Except.ok.inj hshards
    refine ⟨(firstRepeated?_eq_none_iff.1 hrepeated).1, ?_⟩
    unfold candidateShards at hmade
    rw [List.forall₂_map_left_iff] at hmade
    have hpoints : runPoints p modules = (runPoints p modules).zipIdx.map (·.1) :=
      (List.zipIdx_map_fst 0 _).symm
    rw [hpoints, List.forall₂_map_left_iff]
    exact hmade.imp fun e P ⟨t, g, hpackage⟩ => ⟨e.2, t, g, hpackage⟩

/-- The values of the packages are the points, in their order. -/
theorem Generated.map_values_targeting (hmodules : modules ≠ [])
    (h : Generated p stamp metadata workers modules s packages) :
    packages.map (·.targeting.values) = runPoints p modules := by
  have hmade := (List.forall₂_and_left _ _).2
    ⟨fun point (hpoint : point ∈ runPoints p modules) => hpoint, (h.forall₂_isPackage hmodules).2⟩
  have heq : List.Forall₂ (· = ·) (runPoints p modules)
      (packages.map (·.targeting.values)) := by
    rw [List.forall₂_map_right_iff]
    apply hmade.imp
    rintro point P ⟨hpoint, i, t, g, hpackage⟩
    exact (hpackage.values_targeting hpoint).symm
  rw [List.forall₂_eq_eq_eq] at heq
  exact heq.symm

theorem pairwise_lex_runPoints (p : Policy) (modules : List BundleModule) :
    (runPoints p modules).Pairwise (List.Lex fun v w => compare v w = .lt) :=
  pairwise_lex_points_observedAxes _ _

/-- The targetings of the packages are the combinations of the bundle, each once. -/
theorem Generated.mem_targetings_iff (hmodules : modules ≠ [])
    (h : Generated p stamp metadata workers modules s packages) :
    t ∈ packages.map (·.targeting) ↔ IsCombination p modules t := by
  have hvalues := h.map_values_targeting hmodules
  constructor
  · intro ht
    obtain ⟨P, hP, rfl⟩ := List.mem_map.1 ht
    rw [isCombination_iff_mem_runPoints, ← hvalues]
    exact List.mem_map.2 ⟨P, hP, rfl⟩
  · intro ht
    have hpoint := isCombination_iff_mem_runPoints.1 ht
    rw [← hvalues] at hpoint
    obtain ⟨P, hP, hsame⟩ := List.mem_map.1 hpoint
    exact List.mem_map.2 ⟨P, hP, Targeting.values_injective hsame⟩

theorem Generated.nodup_targetings (hmodules : modules ≠ [])
    (h : Generated p stamp metadata workers modules s packages) :
    (packages.map (·.targeting)).Nodup := by
  have hvalues : (runPoints p modules).Nodup := nodup_points_observedAxes _ _
  rw [← h.map_values_targeting hmodules] at hvalues
  apply List.Nodup.of_map Targeting.values
  rwa [List.map_map]

/-- The targetings of the packages are all choices of one observed value along each active dimension
of standalone packages along which there is any, in strictly ascending lexicographic order; so they
are distinct, each choice is that of one package, and no package is for one language, texture format
or tier.  Each package is offered to the devices it is for, and its name and, apart from the stamp,
its manifest are those of the first base module, or of the first module without one. -/
theorem package_list_shape (p : Policy) (stamp : Option String) (metadata : BundleMetadata)
    (workers : Workers) (modules : List BundleModule) (s : Storage) (hmodules : modules ≠ [])
    {packages : List Fragment}
    (h : Generated p stamp metadata workers modules s packages) :
    packages.map (·.targeting.values) = runPoints p modules ∧
    (packages.map (·.targeting.values)).Pairwise (List.Lex fun v w => compare v w = .lt) ∧
    (∀ t, t ∈ packages.map (·.targeting) ↔ IsCombination p modules t) ∧
    (packages.map (·.targeting)).Nodup ∧
    (∀ t, IsCombination p modules t → (packages.map (·.targeting)).count t = 1) ∧
    ∀ P ∈ packages,
      (P.targeting.language = none ∧ P.targeting.textureFormat = none ∧
        P.targeting.deviceTier = none) ∧
      P.variant.targeting = P.targeting ∧
      ∃ m, leadModule? modules = some m ∧ P.module = m.name ∧
        P.manifest.package = m.manifest.package ∧
        P.manifest.attributes = m.manifest.attributes ∧
        ∀ key, key ≠ stampSourceKey → key ≠ stampTypeKey →
          P.manifest.metadata? key = m.manifest.metadata? key := by
  have hvalues := h.map_values_targeting hmodules
  have hnodup := h.nodup_targetings hmodules
  refine ⟨hvalues, ?_, fun t => h.mem_targetings_iff hmodules, hnodup, ?_, ?_⟩
  · rw [hvalues]
    exact pairwise_lex_runPoints p modules
  · intro t ht
    exact List.count_eq_one_of_mem hnodup ((h.mem_targetings_iff hmodules).2 ht)
  · intro P hP
    have hcombination := (h.mem_targetings_iff hmodules).1 (List.mem_map_of_mem hP)
    obtain ⟨hdistinct, hmade⟩ := h.forall₂_isPackage hmodules
    obtain ⟨point, -, i, t, g, hpackage⟩ := exists_mem_of_forall₂ hmade P hP
    refine ⟨⟨?_, ?_, ?_⟩, hpackage.of_leadModule hdistinct hmodules⟩
    · exact Option.map_eq_none_iff.1 (hcombination.get?_eq_none (d := .language) rfl)
    · exact Option.map_eq_none_iff.1 (hcombination.get?_eq_none (d := .textureFormat) rfl)
    · exact Option.map_eq_none_iff.1 (hcombination.get?_eq_none (d := .deviceTier) rfl)

/-- A module with libraries and pictures for some devices, and a base module with a library for
others. -/
def crossBundle : List BundleModule :=
  [{ name := "shop", manifest := ⟨"app.shop", ∅, ∅⟩
     slots := [⟨⟨⟨"res/b.png"⟩, ⟨1, .memory [1]⟩, .compressed⟩,
         some ⟨.ofValue (.screenDensity .hdpi), none⟩⟩,
       ⟨⟨⟨"res/a.png"⟩, ⟨2, .memory [2]⟩, .compressed⟩,
         some ⟨.ofValue (.screenDensity .mdpi), none⟩⟩,
       ⟨⟨⟨"lib/mips/a.so"⟩, ⟨3, .memory [3]⟩, .compressed⟩, some ⟨.ofValue (.abi .mips), none⟩⟩]
     distinct := by decide },
   { name := "base", kind := .base, manifest := ⟨"app", ∅, ∅⟩
     slots := [⟨⟨⟨"lib/x86/a.so"⟩, ⟨4, .memory [4]⟩, .compressed⟩,
       some ⟨.ofValue (.abi .x86), none⟩⟩]
     distinct := by decide }]

/-- Packages are told apart by architecture and density. -/
def crossPolicy : Policy := { dimensions := .ofList [.screenDensity, .language, .abi] }

theorem package_list_shape_crossBundle :
    ∃ packages, (generatePackages crossPolicy (some "store") {} .shared crossBundle {}).result =
        .ok packages ∧
      packages.map (·.targeting.values) =
        [[.abi .x86, .screenDensity .mdpi], [.abi .x86, .screenDensity .hdpi],
          [.abi .mips, .screenDensity .mdpi], [.abi .mips, .screenDensity .hdpi]] ∧
      ∀ P ∈ packages, P.module = "base" ∧ P.manifest.package = "app" := by
  obtain ⟨packages, hrun⟩ := exists_packages_of_isSome crossPolicy (some "store") {} .shared
    crossBundle {} (by rfl)
  obtain ⟨hvalues, -, -, -, -, hpackages⟩ := package_list_shape crossPolicy (some "store") {}
    .shared crossBundle {} (by simp [crossBundle]) (.inl hrun)
  refine ⟨packages, hrun, ?_, ?_⟩
  · rw [hvalues]
    rfl
  · intro P hP
    obtain ⟨-, -, m, hlead, hname, hpackage, -⟩ := hpackages P hP
    obtain rfl := Option.some.inj hlead
    exact ⟨hname, hpackage⟩

end Packages

end BundlePackaging
