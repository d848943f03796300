import BundlePackaging.Proofs.MergeFaults
import BundlePackaging.Proofs.Sharding

/-!
# When a run fails

The shards of a bundle have fragments, all of known modules, and the targetings of each agree.  So a
run of intact contents fails in two ways only: two modules share a name, which sharding finds, or
two entries of a shard are at one path and have different bytes, which merging finds.  Shards are
merged in order, so the first shard with such entries is named.

## Main definitions

* `ConflictsAt` — two entries for a point are at a path and have different bytes.

## Main results

* `gather_shardAt_ends` — a shard of a bundle can be read unless entries for its point conflict.
* `finishShards_ends` — merging ends with the fault of the first shard that cannot be read.
* `run_ends` — a run ends in one of three ways.
* `run_faults` — **the exact conditions under which a run fails.**
-/

namespace BundlePackaging

variable {C : Set Content} {s : Storage} {i : ℕ}

/-! ### Shards -/

/-- Two entries of the fragments that apply to a point are at a path, which is not that of a code
segment, and have different bytes. -/
def ConflictsAt (s : Storage) (fragments : List Fragment) (point : List Value) (q : EntryPath) :
    Prop :=
  q.isDex = false ∧ ∃ f ∈ fragments, f.appliesTo point ∧ ∃ e ∈ f.entries, e.path = q ∧
    ∃ f' ∈ fragments, f'.appliesTo point ∧ ∃ e' ∈ f'.entries, e'.path = q ∧
      e.content.read s ≠ e'.content.read s

instance (s : Storage) (fragments : List Fragment) (point : List Value) (q : EntryPath) :
    Decidable (ConflictsAt s fragments point q) :=
  inferInstanceAs (Decidable (_ ∧ _))

variable {p : Policy} {modules : List BundleModule} {dims : SortedSet Dimension}
  {fragments : List Fragment} {point : List Value}

theorem Policy.content_mem_offered {m : BundleModule} {c : Candidate} (h : c ∈ p.selected m dims) :
    c.entry.content ∈ (p.offered m dims).map (·.entry.content) := by
  obtain ⟨b, hb, isVariant, hkept, -⟩ := mem_selected.1 h
  obtain ⟨-, hentry, -⟩ := Candidate.of_resolveFrom_eq_kept nodup_dimensions_variantChoices hkept
  rw [hentry]
  exact List.mem_map.2 ⟨b, hb, rfl⟩

theorem content_mem_offeredContents {c : Content}
    (h : c ∈ (shardAt (bundleFragments p modules dims) i point).contents) :
    c ∈ offeredContents p modules dims := by
  obtain ⟨f, hf, e, he, rfl⟩ := Shard.mem_contents.1 h
  obtain ⟨m, hm, c, hc, rfl, -⟩ := mem_entries_shardAt.1 ⟨f, hf, he⟩
  rw [p.content_compress]
  exact List.mem_flatMap.2 ⟨m, hm, Policy.content_mem_offered hc⟩

/-- Every shard has the master fragments. -/
theorem fragments_shardAt_ne_nil (h : modules ≠ []) :
    (shardAt (bundleFragments p modules dims) i point).fragments ≠ [] := by
  obtain ⟨m, hm⟩ := List.exists_mem_of_ne_nil modules h
  have hmaster : .ofMaster m.name m.manifest (Policy.entriesAt (p.placements m dims) none) ∈
      bundleFragments p modules dims := mem_bundleFragments.2 ⟨m, hm, List.mem_cons_self⟩
  exact List.ne_nil_of_mem (mem_fragments_shardAt.2 ⟨hmaster, appliesTo_ofMaster⟩)

theorem values_mem_of_appliesTo {f : Fragment} (hf : f ∈ bundleFragments p modules dims)
    (h : f.appliesTo point) : ∀ v ∈ f.targeting.values, v ∈ point := by
  obtain ⟨m, -, hf⟩ := mem_bundleFragments.1 hf
  rcases Policy.mem_partition.1 hf with rfl | ⟨w, -, rfl⟩
  · simp [Fragment.ofMaster, Targeting.values]
  · intro v hv
    obtain rfl : v = w := by simpa [Fragment.ofValue] using hv
    exact appliesTo_ofValue.1 h

namespace ModuleOrder

/-- The targetings of the fragments of a bundle that apply to a point agree. -/
theorem targetingsAgree_shardAt
    (hpoint : point ∈ points (observedAxes dims (bundleFragments p modules dims))) :
    (shardAt (bundleFragments p modules dims) i point).TargetingsAgree := by
  have hmem : ∀ f ∈ (shardAt (bundleFragments p modules dims) i point).fragments, ∀ d v,
      f.targeting.get? d = some v → v ∈ point ∧ v.dimension = d := by
    intro f hf d v hv
    obtain ⟨hf, happlies⟩ := mem_fragments_shardAt.1 hf
    obtain ⟨hv, hd⟩ := Targeting.get?_eq_some_iff.1 hv
    exact ⟨values_mem_of_appliesTo hf happlies v hv, hd⟩
  intro f hf g hg d v w hv hw
  obtain ⟨hv, hvd⟩ := hmem f hf d v hv
  obtain ⟨hw, hwd⟩ := hmem g hg d w hw
  exact (isPoint_of_mem_points hpoint).eq_of_dimension_eq hv hw (hvd.trans hwd.symm)

theorem conflicts_shardAt_iff {q : EntryPath} :
    (shardAt fragments i point).Conflicts s q ↔ ConflictsAt s fragments point q := by
  unfold Shard.Conflicts ConflictsAt
  simp only [mem_fragments_shardAt, and_assoc]

/-- A shard of a bundle of intact contents can be read, unless entries for its point conflict. -/
theorem gather_shardAt_ends (hmodules : modules ≠ [])
    (hpoint : point ∈ points (observedAxes dims (bundleFragments p modules dims)))
    (hintact : ∀ c ∈ offeredContents p modules dims, c.Intact s)
    (hfree : CollisionFree (readableBytes s (offeredContents p modules dims))) :
    (∃ q a b, (gather (.ofModules modules)
        (shardAt (bundleFragments p modules dims) i point) s).1 =
          .error (.conflictingEntry q i a b) ∧
        ConflictsAt s (bundleFragments p modules dims) point q) ∨
      ((∀ q, ¬ ConflictsAt s (bundleFragments p modules dims) point q) ∧ ∃ g, (gather
        (.ofModules modules) (shardAt (bundleFragments p modules dims) i point) s).1 = .ok g) := by
  have hsub : ∀ c ∈ (shardAt (bundleFragments p modules dims) i point).contents,
      c ∈ offeredContents p modules dims := fun _ => content_mem_offeredContents
  rcases gather_ends (fun c hc => hintact c (hsub c hc)) (hfree.subset (readableBytes_subset hsub))
    (.ofModules modules) with ⟨hempty, -⟩ | ⟨f, hf, hname, -⟩ |
      ⟨-, -, ⟨hdisagree, -⟩ | ⟨-, ⟨q, a, b, herror, hconflict⟩ | ⟨hnone, hread⟩⟩⟩
  · exact absurd hempty (fragments_shardAt_ne_nil hmodules)
  · exact absurd (module_mem_names (mem_fragments_shardAt.1 hf).1) hname
  · exact absurd (targetingsAgree_shardAt hpoint) hdisagree
  · exact .inl ⟨q, a, b, herror, conflicts_shardAt_iff.1 hconflict⟩
  · right
    refine ⟨?_, hread⟩
    intro q hconflict
    exact hnone q (conflicts_shardAt_iff.2 hconflict)

end ModuleOrder

/-! ### Runs -/

/-- Merging reads every shard, or ends with the fault of the first shard that cannot be read. -/
theorem finishShards_ends (o : ModuleOrder) (chain : List Injector) {found : List Shard}
    (hC : ∀ shard ∈ found, ∀ c ∈ shard.contents, c ∈ C) {w : Workbench}
    (hw : w.storage.Alike C s) :
    (∃ packages, (finishShards o chain found w).result = .ok packages ∧
      ∀ shard ∈ found, ∃ g, (o.gather shard s).1 = .ok g) ∨
    ∃ (fault : Fault) (i : ℕ) (shard : Shard),
      (finishShards o chain found w).result = .error fault ∧ found[i]? = some shard ∧
      (o.gather shard s).1 = .error fault ∧
      ∀ j < i, ∀ before, found[j]? = some before → ∃ g, (o.gather before s).1 = .ok g := by
  induction found generalizing w with
  | nil => exact .inl ⟨[], rfl, by simp⟩
  | cons shard found ih =>
    obtain ⟨hshard, hC⟩ := List.forall_mem_cons.1 hC
    -- what was read before leaves a storage that is like `s`
    obtain ⟨hanswer, hleft⟩ := ModuleOrder.restsOn_gather (o := o) hshard hw
    unfold finishShards ModuleOrder.merge
    rcases hread : o.gather shard w.storage with ⟨fault | g, t⟩
    · rw [hread] at hanswer
      exact .inr ⟨fault, 0, shard, rfl, rfl, hanswer.symm,
        fun j hj => absurd hj (Nat.not_lt_zero j)⟩
    · rw [hread] at hanswer hleft
      dsimp only
      rcases ih hC (w := ⟨t, (g.fuse o shard w.cache).2⟩) hleft with
        ⟨packages, hrun, hall⟩ | ⟨fault, i, later, hrun, hlater, hfault, hbefore⟩
      · rw [hrun]
        exact .inl ⟨_, rfl, List.forall_mem_cons.2 ⟨⟨g, hanswer.symm⟩, hall⟩⟩
      · rw [hrun]
        refine .inr ⟨fault, i + 1, later, rfl, hlater, hfault, fun j hj before hj' => ?_⟩
        cases j with
        | zero =>
          obtain rfl : shard = before := by simpa using hj'
          exact ⟨g, hanswer.symm⟩
        | succ j => exact hbefore j (Nat.lt_of_succ_lt_succ hj) before hj'

section Runs

variable (stamp : Option String) (metadata : BundleMetadata) (workers : Workers)

/-- If two modules share a name, a run fails in the first shard. -/
theorem exists_duplicate_of_not_nodup (hmodules : modules ≠ [])
    (hnames : ¬ (modules.map (·.name)).Nodup) :
    ∃ name, (generatePackages p stamp metadata workers modules s).result =
      .error (.duplicateFragment name none 0) := by
  cases hfirst : firstRepeated? (·.name) [] modules with
  | none => exact absurd (firstRepeated?_eq_none_iff.1 hfirst).1 hnames
  | some m =>
    have hshards := shards_bundleFragments p p.standaloneDimensions hmodules
    rw [hfirst] at hshards
    unfold generatePackages
    simp only [hshards]
    exact ⟨m.name, rfl⟩

/-- A run of modules with different names ends with the fault of its first conflict, or else it has
packages. -/
theorem run_ends (hmodules : modules ≠ []) (hnames : (modules.map (·.name)).Nodup)
    (hintact : ∀ c ∈ offeredContents p modules p.standaloneDimensions, c.Intact s)
    (hfree : CollisionFree (readableBytes s (offeredContents p modules p.standaloneDimensions))) :
    (∃ packages, (generatePackages p stamp metadata workers modules s).result = .ok packages ∧
      ∀ point ∈ runPoints p modules, ∀ q, ¬ ConflictsAt s (runFragments p modules) point q) ∨
    ∃ q i a b point, (generatePackages p stamp metadata workers modules s).result =
        .error (.conflictingEntry q i a b) ∧
      (runPoints p modules)[i]? = some point ∧ ConflictsAt s (runFragments p modules) point q ∧
      ∀ j < i, ∀ before, (runPoints p modules)[j]? = some before → ∀ r,
        ¬ ConflictsAt s (runFragments p modules) before r := by
  have hfirst : firstRepeated? (·.name) [] modules = none :=
    firstRepeated?_eq_none_iff.2 ⟨hnames, by simp⟩
  have hshards := shards_bundleFragments p p.standaloneDimensions hmodules
  rw [hfirst] at hshards
  obtain ⟨hresult, -⟩ := generatePackages_of_shards stamp metadata workers s hshards
  rw [hresult]
  let C : Set Content := { c | c ∈ offeredContents p modules p.standaloneDimensions }
  have hC : ∀ shard ∈ candidateShards p.standaloneDimensions (runFragments p modules),
      ∀ c ∈ shard.contents, c ∈ C := by
    intro shard hshard c hc
    obtain ⟨i, point, -, rfl⟩ := mem_candidateShards.1 hshard
    exact content_mem_offeredContents hc
  have hst : s.Alike C s := .refl fun c hc => (hintact c hc).steady
  -- a shard that can be read has no conflicts
  have hclean : ∀ {point i g}, point ∈ runPoints p modules →
      (ModuleOrder.gather (.ofModules modules) (shardAt (runFragments p modules) i point) s).1 =
        .ok g → ∀ q, ¬ ConflictsAt s (runFragments p modules) point q := by
    intro point i g hpoint hg
    rcases ModuleOrder.gather_shardAt_ends (i := i) hmodules hpoint hintact hfree with
      ⟨q, a, b, herror, -⟩ | ⟨hnone, -⟩
    · have hsame := hg.symm.trans herror
      cases hsame
    · exact hnone
  rcases finishShards_ends (.ofModules modules)
      (standaloneInjectors p.restrictV3Signing stamp metadata) hC (w := { storage := s }) hst with
    ⟨packages, hrun, hall⟩ | ⟨fault, i, shard, hrun, hshard, hfault, hbefore⟩
  · refine .inl ⟨packages, hrun, ?_⟩
    intro point hpoint
    obtain ⟨i, hi⟩ := List.mem_iff_getElem?.1 hpoint
    obtain ⟨g, hg⟩ := hall _ (mem_candidateShards.2 ⟨i, point, hi, rfl⟩)
    exact hclean hpoint hg
  · rw [getElem?_candidateShards, Option.map_eq_some_iff] at hshard
    obtain ⟨point, hpoint, rfl⟩ := hshard
    rcases ModuleOrder.gather_shardAt_ends (i := i) hmodules (List.mem_of_getElem? hpoint) hintact
      hfree with ⟨q, a, b, herror, hconflict⟩ | ⟨-, g, hg⟩
    · have hsame := hfault.symm.trans herror
      cases hsame
      refine .inr ⟨q, i, a, b, point, hrun, hpoint, hconflict, ?_⟩
      intro j hj before hj'
      obtain ⟨g, hg⟩ := hbefore j hj (shardAt (runFragments p modules) j before) (by
        rw [getElem?_candidateShards]
        exact congrArg (Option.map _) hj')
      exact hclean (List.mem_of_getElem? hj') hg
    · have hsame := hfault.symm.trans hg
      cases hsame

end Runs

/-- A run of intact contents fails in two ways: with a duplicate master fragment in the first shard
just when two modules share a name, and else with a conflict just when two entries for some point
conflict; the point of the shard that is named is the first such point.  Before the run, its workers
may fail to start, and if they do not, it ends as said. -/
theorem run_faults (p : Policy) (stamp : Option String) (metadata : BundleMetadata)
    (workers : Workers) (modules : List BundleModule) (s : Storage) (hmodules : modules ≠ [])
    (hintact : ∀ c ∈ offeredContents p modules p.standaloneDimensions, c.Intact s)
    (hfree : CollisionFree (readableBytes s (offeredContents p modules p.standaloneDimensions))) :
    let result := (generatePackages p stamp metadata workers modules s).result
    ((∃ name, result = .error (.duplicateFragment name none 0)) ↔
      ¬ (modules.map (·.name)).Nodup) ∧
    ((modules.map (·.name)).Nodup →
      ((∃ q i a b, result = .error (.conflictingEntry q i a b)) ↔
        ∃ point ∈ runPoints p modules, ∃ q, ConflictsAt s (runFragments p modules) point q) ∧
      ((¬ ∃ point ∈ runPoints p modules, ∃ q, ConflictsAt s (runFragments p modules) point q) →
        ∃ packages, result = .ok packages)) ∧
    (∀ q i a b, result = .error (.conflictingEntry q i a b) →
      (∃ point, (runPoints p modules)[i]? = some point ∧
        ConflictsAt s (runFragments p modules) point q) ∧
      ∀ j < i, ∀ point, (runPoints p modules)[j]? = some point → ∀ r,
        ¬ ConflictsAt s (runFragments p modules) point r) ∧
    (∀ fault, result = .error fault → (∃ name, fault = .duplicateFragment name none 0) ∨
      ∃ q i a b, fault = .conflictingEntry q i a b) ∧
    ∀ fails : ℕ → Option String,
      (∀ cause, (startAndGenerate fails p stamp metadata workers modules s).1 =
        .error (.workersNotStarted cause) ↔ workers.startFault? fails = some cause) ∧
      (workers.startFault? fails = none →
        (startAndGenerate fails p stamp metadata workers modules s).1 = result.mapError .run) := by
  intro result
  have hstart : ∀ fails : ℕ → Option String,
      (∀ cause, (startAndGenerate fails p stamp metadata workers modules s).1 =
        .error (.workersNotStarted cause) ↔ workers.startFault? fails = some cause) ∧
      (workers.startFault? fails = none →
        (startAndGenerate fails p stamp metadata workers modules s).1 = result.mapError .run) :=
    fun fails => ⟨fun cause => startAndGenerate_eq_workersNotStarted_iff,
      startAndGenerate_of_started⟩
  by_cases hnames : (modules.map (·.name)).Nodup
  · rcases run_ends stamp metadata workers hmodules hnames hintact hfree with
      ⟨packages, (hrun : result = _), hnone⟩ |
      ⟨q, i, a, b, point, (hrun : result = _), hpoint, hconflict, hfirst⟩
    · have hnot : ¬ ∃ point ∈ runPoints p modules, ∃ q,
          ConflictsAt s (runFragments p modules) point q := by
        rintro ⟨point, hpoint, q, hconflict⟩
        exact hnone point hpoint q hconflict
      refine ⟨?_, ?_, ?_, ?_, hstart⟩ <;> simp [hrun, hnames, hnot]
    · have hsome : ∃ point ∈ runPoints p modules, ∃ q,
          ConflictsAt s (runFragments p modules) point q :=
        ⟨point, List.mem_of_getElem? hpoint, q, hconflict⟩
      have hfault : ∀ fault, result = .error fault → fault = .conflictingEntry q i a b := by
        intro fault hfault
        rw [hrun] at hfault
        exact (Except.error.inj hfault).symm
      refine ⟨⟨?_, fun h => absurd hnames h⟩,
        fun _ => ⟨⟨fun _ => hsome, fun _ => ⟨q, i, a, b, hrun⟩⟩, fun hnone => absurd hsome hnone⟩,
        ?_, fun fault h => .inr ⟨q, i, a, b, hfault fault h⟩, hstart⟩
      · rintro ⟨name, hname⟩
        cases hfault _ hname
      · intro q' i' a' b' h
        cases hfault _ h
        exact ⟨⟨point, hpoint, hconflict⟩, hfirst⟩
  · obtain ⟨name, (hrun : result = _)⟩ :=
      exists_duplicate_of_not_nodup stamp metadata workers (p := p) (s := s) hmodules hnames
    refine ⟨?_, ?_, ?_, ?_, hstart⟩ <;> simp [hrun, hnames]

/-- Two modules that agree in all but a native library for one architecture. -/
def clashingBundle : List BundleModule :=
  [{ name := "base", kind := .base, manifest := ⟨"app", ∅, ∅⟩
     slots := [
       ⟨⟨⟨"lib/x86/a.so"⟩, ⟨1, .memory [1]⟩, .compressed⟩, some ⟨.ofValue (.abi .x86), none⟩⟩,
       ⟨⟨⟨"lib/mips/a.so"⟩, ⟨2, .memory [2]⟩, .compressed⟩, some ⟨.ofValue (.abi .mips), none⟩⟩]
     distinct := by decide },
   { name := "shop", manifest := ⟨"app", ∅, ∅⟩
     slots := [
       ⟨⟨⟨"lib/x86/a.so"⟩, ⟨3, .memory [1]⟩, .compressed⟩, some ⟨.ofValue (.abi .x86), none⟩⟩,
       ⟨⟨⟨"lib/mips/a.so"⟩, ⟨4, .memory [3]⟩, .compressed⟩, some ⟨.ofValue (.abi .mips), none⟩⟩]
     distinct := by decide }]

theorem run_faults_clashingBundle :
    clashingBundle ≠ [] ∧
    (∀ c ∈ offeredContents nativePolicy clashingBundle nativePolicy.standaloneDimensions,
      c.Intact {}) ∧
    CollisionFree (readableBytes {} (offeredContents nativePolicy clashingBundle
      nativePolicy.standaloneDimensions)) ∧
    (clashingBundle.map (·.name)).Nodup ∧
    ∃ q i a b, (generatePackages nativePolicy none {} .shared clashingBundle {}).result =
        .error (.conflictingEntry q i a b) ∧
      (∃ point, (runPoints nativePolicy clashingBundle)[i]? = some point ∧
        ConflictsAt {} (runFragments nativePolicy clashingBundle) point q) ∧
      ∀ j < i, ∀ point, (runPoints nativePolicy clashingBundle)[j]? = some point → ∀ r,
        ¬ ConflictsAt {} (runFragments nativePolicy clashingBundle) point r := by
  have hmodules : clashingBundle ≠ [] := by simp [clashingBundle]
  have hmemory : ∀ c ∈ offeredContents nativePolicy clashingBundle
      nativePolicy.standaloneDimensions, (c.read {}).toOption.map List.length = some c.size := by
    decide
  have hintact : ∀ c ∈ offeredContents nativePolicy clashingBundle
      nativePolicy.standaloneDimensions, c.Intact {} := by
    intro c hc
    refine ⟨Content.steady_of_digest?_eq_none rfl, ?_⟩
    have hread := hmemory c hc
    cases hbytes : c.read {} with
    | error e =>
      rw [hbytes] at hread
      cases hread
    | ok bytes =>
      rw [hbytes] at hread
      exact ⟨bytes, rfl, Option.some.inj hread⟩
  have hfree : CollisionFree (readableBytes {} (offeredContents nativePolicy clashingBundle
      nativePolicy.standaloneDimensions)) := by decide +kernel
  have hnames : (clashingBundle.map (·.name)).Nodup := by decide
  have hclash : ∃ point ∈ runPoints nativePolicy clashingBundle,
      ConflictsAt {} (runFragments nativePolicy clashingBundle) point ⟨"lib/mips/a.so"⟩ := by
    decide
  obtain ⟨-, hconflicts, hfirst, -⟩ :=
    run_faults nativePolicy none {} .shared clashingBundle {} hmodules hintact hfree
  obtain ⟨point, hpoint, hclash⟩ := hclash
  obtain ⟨q, i, a, b, hrun⟩ := (hconflicts hnames).1.2 ⟨point, hpoint, _, hclash⟩
  exact ⟨hmodules, hintact, hfree, hnames, q, i, a, b, hrun, hfirst q i a b hrun⟩

example : (generatePackages nativePolicy none {} .shared clashingBundle {}).result =
    .error (.conflictingEntry ⟨"lib/mips/a.so"⟩ 1 "base" "shop") := by decide +kernel

end BundlePackaging
