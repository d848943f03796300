import BundlePackaging.Proofs.Distribution
import BundlePackaging.Proofs.Selection

/-!
# Sharding the fragments of a bundle

A point has one value along each dimension, and a module has one fragment for each value besides its
master fragment.  So among the fragments that apply to a point a module has one for each axis, and
two fragments meet in an axis only if two modules share a name.  Then the master fragments of both
meet in the first shard already.

## Main definitions

* `runFragments`, `runPoints` — the fragments and the points of a run.

## Main results

* `duplicate?_shardAt` — a shard has two fragments for an axis just when two modules share a name.
* `shards_bundleFragments` — **which bundles can be sharded.**
-/

namespace BundlePackaging

variable {p : Policy} {m : BundleModule} {modules : List BundleModule} {dims : SortedSet Dimension}
  {fragments : List Fragment} {v : Value} {point : List Value} {i : ℕ}

/-! ### Repeated keys -/

section FirstRepeated

variable {α β : Type} [DecidableEq β] {key : α → β} {seen : List β} {l : List α}

theorem firstRepeated?_eq_none_iff : firstRepeated? key seen l = none ↔
    (l.map key).Nodup ∧ ∀ a ∈ l, key a ∉ seen := by
  induction l generalizing seen with
  | nil => simp [firstRepeated?]
  | cons a l ih =>
    rw [firstRepeated?]
    by_cases ha : key a ∈ seen
    · simp [ha]
    · rw [if_neg ha, ih, List.map_cons, List.nodup_cons, List.forall_mem_cons]
      simp only [List.mem_cons, not_or, List.mem_map, not_exists, not_and]
      constructor
      · rintro ⟨hnodup, hl⟩
        exact ⟨⟨fun x hx => (hl x hx).1, hnodup⟩, ha, fun x hx => (hl x hx).2⟩
      · rintro ⟨⟨hfresh, hnodup⟩, -, hl⟩
        exact ⟨hnodup, fun x hx => ⟨hfresh x hx, hl x hx⟩⟩

/-- Without a repetition in the front the rest decides, with the keys of the front seen. -/
theorem firstRepeated?_append (l' : List α) (h : firstRepeated? key seen l = none) :
    firstRepeated? key seen (l ++ l') = firstRepeated? key ((l.map key).reverse ++ seen) l' := by
  induction l generalizing seen with
  | nil => rfl
  | cons a l ih =>
    rw [firstRepeated?] at h
    rw [List.cons_append, firstRepeated?]
    split at h
    · cases h
    · next ha =>
      rw [if_neg ha, ih h, List.map_cons, List.reverse_cons, List.append_assoc,
        List.singleton_append]

end FirstRepeated

theorem mem_candidateShards {shard : Shard} : shard ∈ candidateShards dims fragments ↔
    ∃ i point, (points (observedAxes dims fragments))[i]? = some point ∧
      shard = shardAt fragments i point := by
  simp only [List.mem_iff_getElem?, getElem?_candidateShards, Option.map_eq_some_iff,
    eq_comm (a := shard)]

/-! ### Sharding -/

namespace Policy

theorem dimension_mem_of_mem_occurringValues (h : v ∈ occurringValues (p.placements m dims)) :
    v.dimension ∈ dims := by
  obtain ⟨c, -, hdestination⟩ := mem_occurringValues.1 h
  obtain ⟨-, d, hd, -, hget⟩ := value?_destination_eq_some.1 hdestination
  rwa [Targeting.dimension_of_get? hget]

/-- The fragments of a module that apply to a point are its master fragment and those for the values
of the point. -/
theorem keys_filter_partition :
    ((p.partition m dims).filter (·.appliesTo point)).map (fun f => (f.module, f.axis?)) =
      (m.name, none) :: ((occurringValues (p.placements m dims)).toList.filter (· ∈ point)).map
        fun v => (m.name, some v.dimension) := by
  have hmaster : (p.partition m dims).filter (·.appliesTo point) =
      .ofMaster m.name m.manifest (entriesAt (p.placements m dims) none) ::
        ((occurringValues (p.placements m dims)).toList.map fun v =>
          Fragment.ofValue m.name m.manifest v (entriesAt (p.placements m dims) (some v))).filter
            (·.appliesTo point) := List.filter_cons_of_pos appliesTo_ofMaster
  rw [hmaster, List.map_cons, List.filter_map, List.map_map]
  have hvalues : (occurringValues (p.placements m dims)).toList.filter
      ((·.appliesTo point) ∘ fun v =>
        Fragment.ofValue m.name m.manifest v (entriesAt (p.placements m dims) (some v))) =
      (occurringValues (p.placements m dims)).toList.filter (· ∈ point) := by
    refine List.filter_congr fun v _ => ?_
    rw [Bool.eq_iff_iff, decide_eq_true_eq]
    exact appliesTo_ofValue
  rw [hvalues]
  refine congrArg₂ List.cons rfl (List.map_congr_left fun v _ => ?_)
  simp [Fragment.ofValue, Fragment.axis?]

/-- Among the fragments that apply to a point a module has one for each axis. -/
theorem nodup_keys_partition (h : (point.map (·.dimension)).Nodup) :
    (((p.partition m dims).filter (·.appliesTo point)).map
      fun f => (f.module, f.axis?)).Nodup := by
  rw [keys_filter_partition, List.nodup_cons]
  constructor
  · simp
  · refine ((occurringValues (p.placements m dims)).nodup.filter _).map_on ?_
    intro v hv w hw heq
    have hdimension : v.dimension = w.dimension := by simpa using heq
    have hv : v ∈ point := by simpa using (List.mem_filter.1 hv).2
    have hw : w ∈ point := by simpa using (List.mem_filter.1 hw).2
    exact List.inj_on_of_nodup_map h hv hw hdimension

end Policy

/-- Every fragment of a bundle is of a declared module. -/
theorem module_mem_names {f : Fragment} (hf : f ∈ bundleFragments p modules dims) :
    f.module ∈ (ModuleOrder.ofModules modules).names := by
  obtain ⟨m, hm, hf⟩ := mem_bundleFragments.1 hf
  rw [Policy.module_of_mem_partition hf]
  exact List.mem_map.2 ⟨m, hm, rfl⟩

/-- No fragment of a bundle has a value along another dimension. -/
theorem unsharded?_bundleFragments : unsharded? dims (bundleFragments p modules dims) = none := by
  unfold unsharded? targetedFragments
  rw [List.findSome?_eq_none_iff]
  intro f hf
  rw [List.mem_filter, mem_bundleFragments] at hf
  obtain ⟨⟨m, -, hf⟩, htargeted⟩ := hf
  rcases Policy.mem_partition.1 hf with rfl | ⟨v, hv, rfl⟩
  · cases htargeted
  · have hd := Policy.dimension_mem_of_mem_occurringValues hv
    simp [Fragment.ofValue, hd]

/-- Modules are looked through one by one: the first with a name that was seen brings its master
fragment first, and an axis of a name that was not seen is new. -/
theorem firstRepeated?_fragments (h : (point.map (·.dimension)).Nodup) {names : List String}
    {seen : List (String × Option Dimension)} (hnames : ∀ key ∈ seen, key.1 ∈ names)
    (hmasters : ∀ name ∈ names, (name, none) ∈ seen) :
    (firstRepeated? (fun f : Fragment => (f.module, f.axis?)) seen
      ((bundleFragments p modules dims).filter (·.appliesTo point))).map
        (fun f => (f.module, f.axis?)) =
      (firstRepeated? (·.name) names modules).map fun m => (m.name, none) := by
  induction modules generalizing names seen with
  | nil => rfl
  | cons m modules ih =>
    have hgroup : (bundleFragments p (m :: modules) dims).filter (·.appliesTo point) =
        (p.partition m dims).filter (·.appliesTo point) ++
          (bundleFragments p modules dims).filter (·.appliesTo point) := List.filter_append ..
    rw [hgroup]
    by_cases hm : m.name ∈ names
    · obtain ⟨rest, hfirst⟩ : ∃ rest, (p.partition m dims).filter (·.appliesTo point) =
          .ofMaster m.name m.manifest (Policy.entriesAt (p.placements m dims) none) :: rest :=
        ⟨_, List.filter_cons_of_pos appliesTo_ofMaster⟩
      rw [hfirst, List.cons_append, firstRepeated?, firstRepeated?, if_pos hm]
      exact congrArg _ (if_pos (hmasters m.name hm))
    · have hmodule : ∀ f ∈ (p.partition m dims).filter (·.appliesTo point), f.module = m.name :=
        fun f hf => Policy.module_of_mem_partition (List.mem_filter.1 hf).1
      have hnew : firstRepeated? (fun f : Fragment => (f.module, f.axis?)) seen
          ((p.partition m dims).filter (·.appliesTo point)) = none := by
        refine firstRepeated?_eq_none_iff.2 ⟨Policy.nodup_keys_partition h, fun f hf hseen => ?_⟩
        have hname := hnames _ hseen
        rw [hmodule f hf] at hname
        exact hm hname
      rw [firstRepeated?_append _ hnew, firstRepeated?, if_neg hm]
      refine ih (fun key hkey => ?_) (fun name hname => ?_)
      · rw [List.mem_append, List.mem_reverse] at hkey
        rcases hkey with hkey | hkey
        · obtain ⟨f, hf, rfl⟩ := List.mem_map.1 hkey
          rw [hmodule f hf]
          exact List.mem_cons_self
        · exact List.mem_cons_of_mem _ (hnames key hkey)
      · rw [List.mem_append, List.mem_reverse, Policy.keys_filter_partition]
        rcases List.mem_cons.1 hname with rfl | hname
        · exact .inl List.mem_cons_self
        · exact .inr (hmasters name hname)

/-- A shard has two fragments for an axis just when two modules share a name. -/
theorem duplicate?_shardAt
    (h : point ∈ points (observedAxes dims (bundleFragments p modules dims))) :
    (shardAt (bundleFragments p modules dims) i point).duplicate? =
      (firstRepeated? (·.name) [] modules).map fun m => .duplicateFragment m.name none i := by
  have hfirst : (firstRepeated? (fun f : Fragment => (f.module, f.axis?)) []
      ((bundleFragments p modules dims).filter (·.appliesTo point))).map
        (fun f => (f.module, f.axis?)) =
      (firstRepeated? (·.name) [] modules).map fun m => (m.name, none) :=
    firstRepeated?_fragments (nodup_dimensions_of_mem_points h) (by simp) (by simp)
  unfold Shard.duplicate?
  have hfault := congrArg (Option.map fun key : String × Option Dimension =>
    Fault.duplicateFragment key.1 key.2 i) hfirst
  rw [Option.map_map, Option.map_map] at hfault
  exact hfault

/-- The fragments of a bundle can be sharded just when no two modules share a name; otherwise two
master fragments of one name meet in the first shard. -/
theorem shards_bundleFragments (p : Policy) (dims : SortedSet Dimension) (h : modules ≠ []) :
    shards dims (bundleFragments p modules dims) =
      match firstRepeated? (·.name) [] modules with
      | some m => .error (.duplicateFragment m.name none 0)
      | none => .ok (candidateShards dims (bundleFragments p modules dims)) := by
  have hnonempty : (bundleFragments p modules dims).isEmpty = false := by
    obtain ⟨m, hm⟩ := List.exists_mem_of_ne_nil modules h
    rw [List.isEmpty_eq_false_iff]
    exact List.ne_nil_of_mem (mem_bundleFragments.2 ⟨m, hm, List.mem_cons_self⟩)
  unfold shards
  rw [hnonempty, unsharded?_bundleFragments]
  cases hfirst : firstRepeated? (·.name) [] modules with
  | some m =>
    obtain ⟨point, rest, hpoints⟩ := List.exists_cons_of_ne_nil
      (points_observedAxes_ne_nil dims (bundleFragments p modules dims))
    have hfault : (candidateShards dims (bundleFragments p modules dims)).findSome?
        Shard.duplicate? = some (.duplicateFragment m.name none 0) := by
      have hpoint : point ∈ points (observedAxes dims (bundleFragments p modules dims)) := by
        rw [hpoints]
        exact List.mem_cons_self
      unfold candidateShards
      rw [hpoints, List.zipIdx_cons, List.map_cons, List.findSome?_cons,
        duplicate?_shardAt hpoint, hfirst]
      rfl
    simp [hfault]
  | none =>
    have hnone : (candidateShards dims (bundleFragments p modules dims)).findSome?
        Shard.duplicate? = none := by
      rw [List.findSome?_eq_none_iff]
      intro shard hshard
      obtain ⟨i, point, hpoint, rfl⟩ := mem_candidateShards.1 hshard
      rw [duplicate?_shardAt (List.mem_of_getElem? hpoint), hfirst]
      rfl
    simp [hnone]

/-! ### The points of a run -/

/-- The fragments into which a run cuts a bundle. -/
def runFragments (p : Policy) (modules : List BundleModule) : List Fragment :=
  bundleFragments p modules p.standaloneDimensions

/-- The points of a bundle, in the order of its shards. -/
def runPoints (p : Policy) (modules : List BundleModule) : List (List Value) :=
  points (observedAxes p.standaloneDimensions (runFragments p modules))

end BundlePackaging
