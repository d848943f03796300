import BundlePackaging.Generation
import BundlePackaging.Proofs.Points
import BundlePackaging.Proofs.Uniting

/-!
# Where entries go

An entry that variant selection leaves goes to one fragment of its module, and that fragment to the
shards of the points that it applies to.  So a shard has an entry of a module just when the entry's
destination is the master fragment or a value of the shard's point, and the values of a point are
those that the targeting of the merged shard names.

## Main results

* `Policy.mem_partition` — the fragments of a module.
* `of_shards_eq_ok` — the shards are those of the points.
* `mem_entries_shardAt` — **the entries of a shard are those whose destination the point admits.**
* `get?_eq_some_iff_mem_point` — the values of a point are those that the united targeting names.
-/

namespace BundlePackaging

variable {p : Policy} {m : BundleModule} {modules : List BundleModule} {dims : SortedSet Dimension}
  {f : Fragment} {fragments : List Fragment} {e : Entry} {v : Value} {point : List Value}

/-! ### One value -/

@[simp] theorem Targeting.values_ofValue (v : Value) : (Targeting.ofValue v).values = [v] := by
  cases v <;> rfl

theorem Targeting.get?_ofValue {v w : Value} {d : Dimension} :
    (Targeting.ofValue v).get? d = some w ↔ v = w ∧ v.dimension = d := by
  unfold ofValue
  rw [get?_set, get?_master]
  split
  · next hd => simp [hd]
  · next hd => simp [hd]

theorem appliesTo_ofMaster {name : String} {manifest : Manifest} {es : List Entry} :
    (Fragment.ofMaster name manifest es).appliesTo point := rfl

theorem appliesTo_ofValue {name : String} {manifest : Manifest} {es : List Entry} :
    (Fragment.ofValue name manifest v es).appliesTo point ↔ v ∈ point := by
  simp [Fragment.appliesTo, Fragment.ofValue]

/-! ### Fragments of a module -/

namespace Policy

theorem path_compress (p : Policy) (e : Entry) : (p.compress e).path = e.path := by
  unfold compress
  split <;> rfl

theorem content_compress (p : Policy) (e : Entry) : (p.compress e).content = e.content := by
  unfold compress
  split <;> rfl

theorem mem_entriesAt {d : Option Value} :
    e ∈ entriesAt (p.placements m dims) d ↔
      ∃ c ∈ p.selected m dims, (p.destination m dims c).value? = d ∧ e = p.compress c.entry := by
  simp only [entriesAt, placements, List.mem_map, List.mem_filter, decide_eq_true_eq]
  constructor
  · rintro ⟨_, ⟨⟨c, hc, rfl⟩, hd⟩, rfl⟩
    exact ⟨c, hc, hd, rfl⟩
  · rintro ⟨c, hc, hd, rfl⟩
    exact ⟨_, ⟨⟨c, hc, rfl⟩, hd⟩, rfl⟩

theorem mem_occurringValues :
    v ∈ occurringValues (p.placements m dims) ↔
      ∃ c ∈ p.selected m dims, (p.destination m dims c).value? = some v := by
  simp only [occurringValues, placements, SortedSet.mem_ofList, List.mem_filterMap, List.mem_map]
  constructor
  · rintro ⟨_, ⟨c, hc, rfl⟩, hd⟩
    exact ⟨c, hc, hd⟩
  · rintro ⟨c, hc, hd⟩
    exact ⟨_, ⟨c, hc, rfl⟩, hd⟩

/-- A module has a master fragment, and one for each value that some entry goes to. -/
theorem mem_partition :
    f ∈ p.partition m dims ↔
      f = .ofMaster m.name m.manifest (entriesAt (p.placements m dims) none) ∨
      ∃ v ∈ occurringValues (p.placements m dims),
        f = .ofValue m.name m.manifest v (entriesAt (p.placements m dims) (some v)) := by
  simp only [partition, List.mem_cons, List.mem_map, SortedSet.mem_def, eq_comm]

theorem module_of_mem_partition (h : f ∈ p.partition m dims) : f.module = m.name := by
  rcases mem_partition.1 h with rfl | ⟨v, -, rfl⟩
  · rfl
  · rfl

/-- The targeted fragments of a module are for one value each. -/
theorem targeting_of_mem_partition (h : f ∈ p.partition m dims) (hmaster : f.master = false) :
    ∃ v, f.targeting = .ofValue v ∧ ∀ point, f.appliesTo point ↔ v ∈ point := by
  rcases mem_partition.1 h with rfl | ⟨v, -, rfl⟩
  · cases hmaster
  · exact ⟨v, rfl, fun _ => appliesTo_ofValue⟩

end Policy

theorem mem_bundleFragments :
    f ∈ bundleFragments p modules dims ↔ ∃ m ∈ modules, f ∈ p.partition m dims :=
  List.mem_flatMap

/-- Of modules with distinct names, each of whose entries go to distinct paths, the name of a module
and the path of an entry tell the entry. -/
theorem entry_eq_of_path_eq (hnames : (modules.map (·.name)).Nodup)
    (hpaths : ∀ m ∈ modules, ((p.partition m dims).flatMap (·.paths)).Nodup) {f f' : Fragment}
    (hf : f ∈ bundleFragments p modules dims) (hf' : f' ∈ bundleFragments p modules dims)
    (hmodule : f.module = f'.module) {e e' : Entry} (he : e ∈ f.entries) (he' : e' ∈ f'.entries)
    (hpath : e.path = e'.path) : e = e' := by
  obtain ⟨m, hm, hf⟩ := mem_bundleFragments.1 hf
  obtain ⟨m', hm', hf'⟩ := mem_bundleFragments.1 hf'
  rw [Policy.module_of_mem_partition hf, Policy.module_of_mem_partition hf'] at hmodule
  obtain rfl := List.inj_on_of_nodup_map hnames hm hm' hmodule
  have hdistinct : (((p.partition m dims).flatMap (·.entries)).map (·.path)).Nodup := by
    rw [List.map_flatMap]
    exact hpaths m hm
  exact List.inj_on_of_nodup_map hdistinct (List.mem_flatMap.2 ⟨f, hf, he⟩)
    (List.mem_flatMap.2 ⟨f', hf', he'⟩) hpath

/-! ### Shards -/

theorem mem_fragments_shardAt {i : ℕ} :
    f ∈ (shardAt fragments i point).fragments ↔ f ∈ fragments ∧ f.appliesTo point :=
  List.mem_filter

theorem getElem?_candidateShards {i : ℕ} : (candidateShards dims fragments)[i]? =
    (points (observedAxes dims fragments))[i]?.map (shardAt fragments i) := by
  unfold candidateShards
  rw [List.getElem?_map, List.getElem?_zipIdx, Option.map_map, Nat.zero_add]
  rfl

/-- How sharding ends: without fragments there are no shards; a fragment off the dimensions that are
sharded on comes first, then a shard with two fragments for one axis; otherwise all shards are
made. -/
theorem shards_cases (dims : SortedSet Dimension) (fragments : List Fragment) :
    (fragments = [] ∧ shards dims fragments = .ok []) ∨
    (fragments ≠ [] ∧ ∃ fault, unsharded? dims fragments = some fault ∧
      shards dims fragments = .error fault) ∨
    (fragments ≠ [] ∧ unsharded? dims fragments = none ∧ ∃ fault,
      (candidateShards dims fragments).findSome? Shard.duplicate? = some fault ∧
      shards dims fragments = .error fault) ∨
    (fragments ≠ [] ∧ unsharded? dims fragments = none ∧
      (∀ shard ∈ candidateShards dims fragments, shard.duplicate? = none) ∧
      shards dims fragments = .ok (candidateShards dims fragments)) := by
  unfold shards
  by_cases hempty : fragments = []
  · exact .inl ⟨hempty, by simp [hempty]⟩
  · rw [if_neg (by simpa using hempty)]
    cases hunsharded : unsharded? dims fragments with
    | some fault => exact .inr (.inl ⟨hempty, fault, rfl, rfl⟩)
    | none =>
      cases hduplicate : (candidateShards dims fragments).findSome? Shard.duplicate? with
      | some fault => exact .inr (.inr (.inl ⟨hempty, rfl, fault, rfl, by simp [hduplicate]⟩))
      | none =>
        exact .inr (.inr (.inr ⟨hempty, rfl, List.findSome?_eq_none_iff.1 hduplicate,
          by simp [hduplicate]⟩))

/-- The shard at a position is that of the point there. -/
theorem exists_point_of_shards_eq_ok {found : List Shard} {shard : Shard} {i : ℕ}
    (h : shards dims fragments = .ok found) (hshard : found[i]? = some shard) :
    ∃ point, (points (observedAxes dims fragments))[i]? = some point ∧
      shard = shardAt fragments i point := by
  rcases shards_cases dims fragments with ⟨-, hok⟩ | ⟨-, fault, -, herror⟩ |
    ⟨-, -, fault, -, herror⟩ | ⟨-, -, -, hok⟩
  · rw [hok] at h
    obtain rfl := Except.ok.inj h
    cases hshard
  · rw [herror] at h
    cases h
  · rw [herror] at h
    cases h
  · rw [hok] at h
    obtain rfl := Except.ok.inj h
    rw [getElem?_candidateShards, Option.map_eq_some_iff] at hshard
    obtain ⟨point, hpoint, rfl⟩ := hshard
    exact ⟨point, hpoint, rfl⟩

/-- The shards are those of the points, in their order. -/
theorem of_shards_eq_ok {found : List Shard} (h : shards dims fragments = .ok found) :
    ∀ shard ∈ found, ∃ i, ∃ point ∈ points (observedAxes dims fragments),
      shard = shardAt fragments i point := by
  intro shard hshard
  obtain ⟨i, hi⟩ := List.mem_iff_getElem?.1 hshard
  obtain ⟨point, hpoint, rfl⟩ := exists_point_of_shards_eq_ok h hi
  exact ⟨i, point, List.mem_of_getElem? hpoint, rfl⟩

theorem fragments_subset_of_shards {found : List Shard} (h : shards dims fragments = .ok found)
    {shard : Shard} (hshard : shard ∈ found) (hf : f ∈ shard.fragments) : f ∈ fragments := by
  obtain ⟨i, point, -, rfl⟩ := of_shards_eq_ok h shard hshard
  exact (mem_fragments_shardAt.1 hf).1

/-- The entries of a shard are those whose destination is the master fragment or a value of the
point. -/
theorem mem_entries_shardAt {i : ℕ} :
    (∃ f ∈ (shardAt (bundleFragments p modules dims) i point).fragments, e ∈ f.entries) ↔
      ∃ m ∈ modules, ∃ c ∈ p.selected m dims, e = p.compress c.entry ∧
        ∀ v, (p.destination m dims c).value? = some v → v ∈ point := by
  constructor
  · rintro ⟨f, hf, he⟩
    obtain ⟨hf, happlies⟩ := mem_fragments_shardAt.1 hf
    obtain ⟨m, hm, hf⟩ := mem_bundleFragments.1 hf
    refine ⟨m, hm, ?_⟩
    rcases Policy.mem_partition.1 hf with rfl | ⟨v, -, rfl⟩
    · obtain ⟨c, hc, hd, rfl⟩ := Policy.mem_entriesAt.1 he
      refine ⟨c, hc, rfl, fun v hv => ?_⟩
      rw [hd] at hv
      cases hv
    · obtain ⟨c, hc, hd, rfl⟩ := Policy.mem_entriesAt.1 he
      refine ⟨c, hc, rfl, fun w hw => ?_⟩
      rw [hd] at hw
      cases hw
      exact appliesTo_ofValue.1 happlies
  · rintro ⟨m, hm, c, hc, rfl, hpoint⟩
    cases hd : (p.destination m dims c).value? with
    | none =>
      have hpart : .ofMaster m.name m.manifest (Policy.entriesAt (p.placements m dims) none) ∈
          p.partition m dims := Policy.mem_partition.2 (.inl rfl)
      exact ⟨_, mem_fragments_shardAt.2 ⟨mem_bundleFragments.2 ⟨m, hm, hpart⟩, appliesTo_ofMaster⟩,
        Policy.mem_entriesAt.2 ⟨c, hc, hd, rfl⟩⟩
    | some v =>
      have hpart : .ofValue m.name m.manifest v
          (Policy.entriesAt (p.placements m dims) (some v)) ∈ p.partition m dims :=
        Policy.mem_partition.2 (.inr ⟨v, Policy.mem_occurringValues.2 ⟨c, hc, hd⟩, rfl⟩)
      exact ⟨_, mem_fragments_shardAt.2 ⟨mem_bundleFragments.2 ⟨m, hm, hpart⟩,
        appliesTo_ofValue.2 (hpoint v hd)⟩, Policy.mem_entriesAt.2 ⟨c, hc, hd, rfl⟩⟩

/-! ### Points -/

/-- A value of a point is one that some targeted fragment has. -/
theorem exists_fragment_of_mem_point (hpoint : point ∈ points (observedAxes dims fragments))
    (hv : v ∈ point) :
    ∃ f ∈ fragments, f.master = false ∧ f.targeting.get? v.dimension = some v := by
  obtain ⟨-, f, hf, hmaster, hvalue⟩ := (isPoint_of_mem_points hpoint).observed v hv
  exact ⟨f, hf, hmaster, Targeting.mem_values.1 hvalue⟩

/-- The values of a point are those that the united targeting of its shard names. -/
theorem get?_eq_some_iff_mem_point {i : ℕ} {o : ModuleOrder} {t : Targeting}
    (hpoint : point ∈ points (observedAxes dims (bundleFragments p modules dims)))
    (h : uniteTargetings i .master
      (o.arrange (shardAt (bundleFragments p modules dims) i point).fragments) = .ok t) :
    t.get? v.dimension = some v ↔ v ∈ point := by
  rw [uniteTargetings_get? h]
  simp only [ModuleOrder.mem_arrange, mem_fragments_shardAt]
  constructor
  · rintro ⟨f, ⟨hf, happlies⟩, hget⟩
    obtain ⟨m, -, hf⟩ := mem_bundleFragments.1 hf
    rcases Policy.mem_partition.1 hf with rfl | ⟨w, -, rfl⟩
    · exact absurd hget (by simp [Fragment.ofMaster])
    · obtain ⟨rfl, -⟩ := Targeting.get?_ofValue.1 hget
      exact appliesTo_ofValue.1 happlies
  · intro hv
    obtain ⟨f, hf, hmaster, hget⟩ := exists_fragment_of_mem_point hpoint hv
    obtain ⟨m, -, hpart⟩ := mem_bundleFragments.1 hf
    obtain ⟨w, htargeting, happlies⟩ := Policy.targeting_of_mem_partition hpart hmaster
    rw [htargeting] at hget
    obtain ⟨rfl, -⟩ := Targeting.get?_ofValue.1 hget
    exact ⟨f, ⟨hf, (happlies point).2 hv⟩, by rw [htargeting]; exact hget⟩

/-! ### A bundle with two points -/

/-- A bundle of one module, with code for every device and native libraries for two
architectures. -/
def nativeBundle : List BundleModule :=
  [{ name := "base", kind := .base, manifest := ⟨"app", ∅, ∅⟩
     slots := [⟨⟨.dex 1, ⟨1, .memory [1]⟩, .compressed⟩, none⟩,
       ⟨⟨⟨"lib/x86/a.so"⟩, ⟨2, .memory [2]⟩, .compressed⟩, some ⟨.ofValue (.abi .x86), none⟩⟩,
       ⟨⟨⟨"lib/mips/a.so"⟩, ⟨3, .memory [3]⟩, .compressed⟩, some ⟨.ofValue (.abi .mips), none⟩⟩]
     distinct := by decide }]

/-- Packages are told apart by architecture. -/
def nativePolicy : Policy := { dimensions := .ofList [.abi] }

example : points (observedAxes nativePolicy.standaloneDimensions
    (bundleFragments nativePolicy nativeBundle nativePolicy.standaloneDimensions)) =
      [[.abi .x86], [.abi .mips]] := by decide +kernel

end BundlePackaging
