import BundlePackaging.Proofs.Sharding

/-!
# Which shards a fragment is in

Any list of fragments that can be sharded is sharded completely: there is one shard for each point,
and each fragment is in the shards of the points that it applies to.  A fragment that is not for
every device applies to the points with its values, so along an axis along which it has a value it
applies to one choice, and along any other axis to all of them.

## Main results

* `unsharded?_eq_none_iff` — no fragment lies outside the dimensions that are sharded on.
* `Shard.duplicate?_eq_none_iff` — the fragments of a shard have distinct modules and axes.
* `countP_candidateShards`, `countP_appliesTo_points` — how many shards a fragment is in.
* `shards_cover` — **the shards of any list of fragments.**
-/

namespace BundlePackaging

variable {dims : SortedSet Dimension} {fragments : List Fragment} {f : Fragment}
  {found : List Shard}

/-! ### What a list of fragments needs to be sharded -/

/-- A fragment that is not for every device has a value along a dimension that is not sharded on. -/
def Fragment.LiesOutside (f : Fragment) (dims : SortedSet Dimension) : Prop :=
  f.master = false ∧ ∃ v ∈ f.targeting.values, v.dimension ∉ dims

theorem unsharded?_eq_none_iff :
    unsharded? dims fragments = none ↔ ∀ f ∈ fragments, ¬ f.LiesOutside dims := by
  unfold unsharded? targetedFragments Fragment.LiesOutside
  simp only [List.findSome?_eq_none_iff, List.mem_filter, Bool.not_eq_true', Option.map_eq_none_iff,
    List.find?_eq_none, decide_eq_true_eq, not_and, not_exists, and_imp]

theorem Shard.duplicate?_eq_none_iff {shard : Shard} : shard.duplicate? = none ↔
    (shard.fragments.map fun f => (f.module, f.axis?)).Nodup := by
  unfold Shard.duplicate?
  rw [Option.map_eq_none_iff, firstRepeated?_eq_none_iff]
  simp

/-- Fragments that can be sharded lie on the dimensions that are sharded on, and the shards are those
of all points, none with two fragments for one axis. -/
theorem of_shards_eq_ok_of_ne_nil (hnonempty : fragments ≠ [])
    (h : shards dims fragments = .ok found) :
    (∀ f ∈ fragments, ¬ f.LiesOutside dims) ∧ found = candidateShards dims fragments ∧
      ∀ shard ∈ found, (shard.fragments.map fun f => (f.module, f.axis?)).Nodup := by
  rcases shards_cases dims fragments with ⟨hempty, -⟩ | ⟨-, fault, -, herror⟩ |
    ⟨-, -, fault, -, herror⟩ | ⟨-, hunsharded, hduplicate, hok⟩
  · exact absurd hempty hnonempty
  · rw [herror] at h
    cases h
  · rw [herror] at h
    cases h
  · rw [hok] at h
    obtain rfl := Except.ok.inj h
    refine ⟨unsharded?_eq_none_iff.1 hunsharded, rfl, ?_⟩
    intro shard hshard
    exact Shard.duplicate?_eq_none_iff.1 (hduplicate shard hshard)

/-! ### The shards of the points -/

theorem map_point_candidateShards (dims : SortedSet Dimension) (fragments : List Fragment) :
    (candidateShards dims fragments).map (·.point) = points (observedAxes dims fragments) := by
  unfold candidateShards
  rw [List.map_map]
  exact List.zipIdx_map_fst 0 _

/-- A fragment is in as many shards as there are points that it applies to. -/
theorem countP_candidateShards (hf : f ∈ fragments) :
    (candidateShards dims fragments).countP (fun shard => f ∈ shard.fragments) =
      (points (observedAxes dims fragments)).countP f.appliesTo := by
  rw [← map_point_candidateShards, List.countP_map]
  apply List.countP_congr
  intro shard hshard
  obtain ⟨i, point, -, rfl⟩ := mem_candidateShards.1 hshard
  rw [decide_eq_true_eq, mem_fragments_shardAt]
  exact and_iff_right hf

/-! ### Coverage -/

theorem Fragment.appliesTo_eq_decide (f : Fragment) (point : List Value) :
    f.appliesTo point = decide (f.master = true ∨ ∀ v ∈ f.targeting.values, v ∈ point) := by
  rw [Bool.eq_iff_iff]
  simp [appliesTo]

theorem Fragment.appliesTo_of_master (h : f.master = true) (point : List Value) :
    f.appliesTo point := by
  simp [appliesTo, h]

theorem prod_size_axes_pos (ds : List Dimension) (fragments : List Fragment) :
    0 < ((ds.filter fun d => (axis fragments d).toList ≠ [] ∧ f.targeting.get? d = none).map
      fun d => (axis fragments d).size).prod := by
  rw [List.prod_pos_iff_forall_pos_nat]
  intro n hn
  obtain ⟨d, hd, rfl⟩ := List.mem_map.1 hn
  have hnonempty : (axis fragments d).toList ≠ [] := by
    have hkind := of_decide_eq_true (List.mem_filter.1 hd).2
    exact hkind.1
  exact List.length_pos_iff.2 hnonempty

/-- A fragment that is not for every device applies to one point for each choice from the axes along
which it has no value. -/
theorem countP_appliesTo_points (hinside : ∀ f ∈ fragments, ¬ f.LiesOutside dims)
    (hf : f ∈ fragments) (hmaster : f.master = false) :
    (points (observedAxes dims fragments)).countP f.appliesTo =
      ((dims.toList.filter fun d =>
        (axis fragments d).toList ≠ [] ∧ f.targeting.get? d = none).map fun d =>
          (axis fragments d).size).prod := by
  have hvalues : ∀ v ∈ f.targeting.values, v.dimension ∈ dims ∧ ObservedIn fragments v := by
    intro v hv
    refine ⟨?_, f, hf, hmaster, hv⟩
    by_contra hd
    exact hinside f hf ⟨hmaster, v, hv, hd⟩
  have happlies : f.appliesTo = fun q => decide (∀ v ∈ f.targeting.values, v ∈ q) := by
    funext q
    rw [f.appliesTo_eq_decide, hmaster]
    simp
  rw [happlies]
  exact countP_points_observedAxes hvalues

/-- Every fragment applies to some point. -/
theorem exists_point_appliesTo (hinside : ∀ f ∈ fragments, ¬ f.LiesOutside dims)
    (hf : f ∈ fragments) : ∃ q ∈ points (observedAxes dims fragments), f.appliesTo q := by
  cases hmaster : f.master with
  | true =>
    obtain ⟨q, hq⟩ := List.exists_mem_of_ne_nil _ (points_observedAxes_ne_nil dims fragments)
    exact ⟨q, hq, Fragment.appliesTo_of_master hmaster q⟩
  | false =>
    rw [← List.countP_pos_iff, countP_appliesTo_points hinside hf hmaster]
    exact prod_size_axes_pos _ _

/-- If fragments can be sharded along some dimensions, given in any order and with repetitions, the
points of the shards are all choices of one observed value along each dimension along which there
are any, each once and in lexicographic order.  A shard has its position as its number and holds, in
their order, the fragments that are for every device or all of whose values occur in its point, none
twice.  So a fragment that is not for every device is in one shard for each choice from the axes
along which it has no value, and a fragment that is for every device is in all shards. -/
theorem shards_cover (ds : List Dimension) (hnonempty : fragments ≠ [])
    (h : shards (.ofList ds) fragments = .ok found) :
    (∀ q, q ∈ found.map (·.point) ↔ IsPoint (.ofList ds) fragments q) ∧
    (found.map (·.point)).Pairwise (List.Lex fun v w => compare v w = .lt) ∧
    (found.map (·.point)).Nodup ∧
    (∀ (i : ℕ) (shard : Shard), found[i]? = some shard → shard.index = i) ∧
    (∀ shard ∈ found, shard.fragments = (fragments.filter fun f =>
      f.master = true ∨ ∀ v ∈ f.targeting.values, v ∈ shard.point) ∧ shard.fragments.Nodup) ∧
    (∀ d v, v ∈ axis fragments d ↔ v.dimension = d ∧ ObservedIn fragments v) ∧
    (∀ f ∈ fragments, f.master = false →
      found.countP (fun shard => f ∈ shard.fragments) =
        (((SortedSet.ofList ds).toList.filter fun d =>
          (axis fragments d).toList ≠ [] ∧ f.targeting.get? d = none).map fun d =>
            (axis fragments d).size).prod ∧
      0 < found.countP fun shard => f ∈ shard.fragments) ∧
    ∀ f ∈ fragments, f.master = true → ∀ shard ∈ found, f ∈ shard.fragments := by
  obtain ⟨hinside, rfl, hkeys⟩ := of_shards_eq_ok_of_ne_nil hnonempty h
  have hpoints := map_point_candidateShards (.ofList ds) fragments
  refine ⟨?points, ?order, ?once, ?index, ?members, fun d v => mem_axis, ?count, ?masters⟩
  case points =>
    intro q
    rw [hpoints, mem_points_observedAxes_iff]
  case order =>
    rw [hpoints]
    exact pairwise_lex_points_observedAxes _ _
  case once =>
    rw [hpoints]
    exact nodup_points_observedAxes _ _
  case index =>
    intro i shard hshard
    rw [getElem?_candidateShards, Option.map_eq_some_iff] at hshard
    obtain ⟨point, -, rfl⟩ := hshard
    rfl
  case members =>
    intro shard hshard
    refine ⟨?_, (hkeys shard hshard).of_map⟩
    obtain ⟨i, point, -, rfl⟩ := mem_candidateShards.1 hshard
    unfold shardAt
    simp only [Fragment.appliesTo_eq_decide]
  case count =>
    intro f hf hmaster
    rw [countP_candidateShards hf, countP_appliesTo_points hinside hf hmaster]
    exact ⟨rfl, prod_size_axes_pos _ _⟩
  case masters =>
    intro f hf hmaster shard hshard
    obtain ⟨i, point, -, rfl⟩ := mem_candidateShards.1 hshard
    exact mem_fragments_shardAt.2 ⟨hf, Fragment.appliesTo_of_master hmaster point⟩

/-- A fragment for every device, one for devices with two values, and two for devices with one. -/
def mixedFragments : List Fragment :=
  [.ofMaster "base" ⟨"app", ∅, ∅⟩ [],
   { Fragment.ofValue "shop" ⟨"app", ∅, ∅⟩ (.abi .x86) [] with
      targeting := { abi := some .x86, screenDensity := some .hdpi } },
   .ofValue "game" ⟨"app", ∅, ∅⟩ (.abi .mips) [],
   .ofValue "news" ⟨"app", ∅, ∅⟩ (.screenDensity .mdpi) []]

theorem shards_cover_mixedFragments :
    mixedFragments ≠ [] ∧ ∃ found,
      shards (.ofList [.screenDensity, .abi, .screenDensity]) mixedFragments = .ok found ∧
      found.length = 4 ∧
      IsPoint (.ofList [.screenDensity, .abi, .screenDensity]) mixedFragments
        [.abi .mips, .screenDensity .hdpi] ∧
      mixedFragments.map (fun f => found.countP fun shard => f ∈ shard.fragments) =
        [4, 1, 2, 2] := by
  have hnonempty : mixedFragments ≠ [] := by simp [mixedFragments]
  obtain ⟨found, hfound⟩ :
      ∃ found, shards (.ofList [.screenDensity, .abi, .screenDensity]) mixedFragments = .ok found :=
    ⟨_, rfl⟩
  obtain ⟨hpoints, -, -, -, -, -, hcount, hmasters⟩ := shards_cover _ hnonempty hfound
  have hlength : found.length = 4 := by
    obtain rfl := Except.ok.inj hfound
    rfl
  refine ⟨hnonempty, found, hfound, hlength, ?_, ?_⟩
  · apply (hpoints _).1
    obtain rfl := Except.ok.inj hfound
    decide
  · have htargeted := fun f (hf : f ∈ mixedFragments.tail) =>
      (hcount f (List.mem_of_mem_tail hf) (by revert f; decide)).1
    have hmaster : found.countP (fun shard =>
        Fragment.ofMaster "base" ⟨"app", ∅, ∅⟩ [] ∈ shard.fragments) = 4 := by
      rw [← hlength, List.countP_eq_length]
      intro shard hshard
      exact decide_eq_true (hmasters _ List.mem_cons_self rfl shard hshard)
    exact congrArg₂ List.cons hmaster ((List.map_congr_left htargeted).trans (by rfl))

end BundlePackaging
