import BundlePackaging.Proofs.ShardCoverage

/-!
# When fragments cannot be sharded

The check for two fragments of a module along one axis looks at each shard by itself.  If each
fragment has one value, or is for every device and has none, what it finds can be told from the list
of all fragments: two fragments of a module that are for the same devices apply to the same points,
so they meet in a shard; and two fragments of a module that meet along an axis are for the same
devices, because a point has one value along each dimension.

## Main definitions

* `Fragment.IsSimple` — fragments for every device, or for the devices with one value.
* `Fragment.Twins`, `HaveTwins` — two fragments of a module for the same devices.

## Main results

* `of_unsharded?_eq_some` — the first fragment off the dimensions that are sharded on is named.
* `Shard.duplicate?_eq_none_iff_not_haveTwins` — what the check of a shard of simple fragments finds.
* `haveTwins_iff_exists_candidateShard` — **twins among the fragments meet in a shard.**
* `shards_rejects` — **which simple fragments cannot be sharded, and what is reported.**
-/

namespace BundlePackaging

variable {dims : SortedSet Dimension} {fragments : List Fragment} {f g : Fragment}
  {point : List Value}

/-! ### Fragments off the dimensions -/

/-- What is reported names the first fragment with a value along a dimension that is not sharded
on. -/
theorem of_unsharded?_eq_some {fault : Fault} (h : unsharded? dims fragments = some fault) :
    ∃ front f rest, fragments = front ++ f :: rest ∧ (∀ g ∈ front, ¬ g.LiesOutside dims) ∧
      f.master = false ∧ ∃ v ∈ f.targeting.values, v.dimension ∉ dims ∧
        fault = .unshardedDimension f.module v.dimension := by
  unfold unsharded? at h
  obtain ⟨before, f, after, hsplit, hfault, hbefore⟩ := List.findSome?_eq_some_iff.1 h
  -- The fragments for every device, which are passed over, go to the parts around the fragment.
  obtain ⟨front, tail, rfl, hfront, htail⟩ := List.filter_eq_append_iff.1 hsplit
  obtain ⟨passed, rest, rfl, hpassed, hmaster, -⟩ := List.filter_eq_cons_iff.1 htail
  obtain ⟨v, hfind, rfl⟩ := Option.map_eq_some_iff.1 hfault
  refine ⟨front ++ passed, f, rest, by simp, ?_, by simpa using hmaster, v,
    List.mem_of_find?_eq_some hfind, by simpa using List.find?_some hfind, rfl⟩
  apply unsharded?_eq_none_iff.1
  unfold unsharded? targetedFragments
  rw [List.filter_append, hfront, List.filter_eq_nil_iff.2 hpassed, List.append_nil]
  exact List.findSome?_eq_none_iff.2 hbefore

/-! ### Simple fragments -/

/-- A fragment is for every device and has no value, or for the devices with one value. -/
def Fragment.IsSimple (f : Fragment) : Prop :=
  f.master = true ∧ f.targeting.values = [] ∨ f.master = false ∧ ∃ v, f.targeting.values = [v]

/-- Two fragments of a module are both for every device, or have a value in common. -/
def Fragment.Twins (f g : Fragment) : Prop :=
  f.module = g.module ∧ (f.master = true ∧ g.master = true ∨
    ∃ v, v ∈ f.targeting.values ∧ v ∈ g.targeting.values)

/-- Fragments at different positions of a list are twins. -/
def HaveTwins (l : List Fragment) : Prop := ∃ f g, [f, g].Sublist l ∧ f.Twins g

theorem not_haveTwins_iff {l : List Fragment} :
    ¬ HaveTwins l ↔ l.Pairwise fun f g => ¬ f.Twins g := by
  unfold HaveTwins
  rw [List.pairwise_iff_forall_sublist]
  simp only [not_exists, not_and]

namespace Fragment.IsSimple

theorem eq_of_mem_values (h : f.IsSimple) {v w : Value} (hv : v ∈ f.targeting.values)
    (hw : w ∈ f.targeting.values) : v = w := by
  rcases h with ⟨-, hnone⟩ | ⟨-, x, hx⟩
  · rw [hnone] at hv
    cases hv
  · rw [hx] at hv hw
    rw [List.mem_singleton.1 hv, List.mem_singleton.1 hw]

/-- A simple fragment applies to the points that have its value, if it has one. -/
theorem appliesTo_iff (h : f.IsSimple) :
    f.appliesTo point ↔ ∀ v ∈ f.targeting.values, v ∈ point := by
  rw [appliesTo_eq_decide, decide_eq_true_eq]
  rcases h with ⟨-, hnone⟩ | ⟨hmaster, -⟩
  · simp [hnone]
  · simp [hmaster]

/-- Simple fragments have the same axis just when both are for every device or have values along one
dimension. -/
theorem axis?_eq_iff (hf : f.IsSimple) (hg : g.IsSimple) : f.axis? = g.axis? ↔
    f.master = true ∧ g.master = true ∨
      ∃ v ∈ f.targeting.values, ∃ w ∈ g.targeting.values, v.dimension = w.dimension := by
  unfold axis?
  rcases hf with ⟨hf, hnone⟩ | ⟨hf, v, hv⟩
  · rcases hg with ⟨hg, hnone'⟩ | ⟨hg, w, hw⟩
    · simp [hf, hg, hnone, hnone']
    · simp [hg, hnone, hw]
  · rcases hg with ⟨hg, hnone⟩ | ⟨hg, w, hw⟩
    · simp [hf, hnone, hv]
    · simp [hf, hv, hw]

end Fragment.IsSimple

namespace Fragment

/-- Twins apply to the same points. -/
theorem Twins.appliesTo (h : f.Twins g) (hf : f.IsSimple) (hg : g.IsSimple)
    (hpoint : f.appliesTo point) : g.appliesTo point := by
  obtain ⟨-, ⟨-, hmaster⟩ | ⟨v, hvf, hvg⟩⟩ := h
  · exact appliesTo_of_master hmaster point
  · rw [hg.appliesTo_iff]
    intro w hw
    rw [hg.eq_of_mem_values hw hvg]
    exact hf.appliesTo_iff.1 hpoint v hvf

/-- Simple fragments that apply to a point are twins just when they are of one module and have the
same axis. -/
theorem twins_iff (hpoint : IsPoint dims fragments point) (hf : f.IsSimple) (hg : g.IsSimple)
    (hfpoint : f.appliesTo point) (hgpoint : g.appliesTo point) :
    f.Twins g ↔ (f.module, f.axis?) = (g.module, g.axis?) := by
  unfold Twins
  rw [Prod.mk.injEq, hf.axis?_eq_iff hg]
  apply and_congr_right'
  apply or_congr_right
  constructor
  · rintro ⟨v, hvf, hvg⟩
    exact ⟨v, hvf, v, hvg, rfl⟩
  · rintro ⟨v, hv, w, hw, hdimension⟩
    have hsame : v = w := hpoint.eq_of_dimension_eq (hf.appliesTo_iff.1 hfpoint v hv)
      (hg.appliesTo_iff.1 hgpoint w hw) hdimension
    exact ⟨v, hv, hsame ▸ hw⟩

end Fragment

/-! ### Twins in a shard -/

/-- What `findSome?` finds is read off a member in front of which nothing is found. -/
theorem exists_getElem?_of_findSome?_eq_some {α β : Type} {f : α → Option β} {l : List α} {b : β}
    (h : l.findSome? f = some b) :
    ∃ (i : ℕ) (a : α), l[i]? = some a ∧ f a = some b ∧
      ∀ j < i, ∀ x, l[j]? = some x → f x = none := by
  obtain ⟨front, a, rest, rfl, ha, hfront⟩ := List.findSome?_eq_some_iff.1 h
  refine ⟨front.length, a, by simp, ha, ?_⟩
  intro j hj x hx
  rw [List.getElem?_append_left hj] at hx
  exact hfront x (List.mem_of_getElem? hx)

/-- What is found first is repeated: an earlier member has its key. -/
theorem of_firstRepeated?_eq_some {α β : Type} [DecidableEq β] {key : α → β} {seen : List β}
    {l : List α} {a : α} (h : firstRepeated? key seen l = some a) :
    (a ∈ l ∧ key a ∈ seen) ∨ ∃ b, [b, a].Sublist l ∧ key b = key a := by
  induction l generalizing seen with
  | nil => cases h
  | cons b l ih =>
    rw [firstRepeated?] at h
    split at h
    · next hseen =>
      obtain rfl := Option.some.inj h
      exact .inl ⟨List.mem_cons_self, hseen⟩
    · rcases ih h with ⟨ha, hseen⟩ | ⟨c, hpair, hkey⟩
      · rcases List.mem_cons.1 hseen with hkey | hseen
        · exact .inr ⟨b, (List.singleton_sublist.2 ha).cons_cons b, hkey.symm⟩
        · exact .inl ⟨List.mem_cons_of_mem b ha, hseen⟩
      · exact .inr ⟨c, hpair.cons b, hkey⟩

section Simple

variable (hsimple : ∀ f ∈ fragments, f.IsSimple) {i : ℕ}
include hsimple

/-- In the shard of a point two fragments have the same key just when they are twins. -/
theorem twins_iff_of_mem_shardAt (hpoint : point ∈ points (observedAxes dims fragments))
    (hf : f ∈ (shardAt fragments i point).fragments)
    (hg : g ∈ (shardAt fragments i point).fragments) :
    f.Twins g ↔ (f.module, f.axis?) = (g.module, g.axis?) := by
  obtain ⟨hf, hfpoint⟩ := mem_fragments_shardAt.1 hf
  obtain ⟨hg, hgpoint⟩ := mem_fragments_shardAt.1 hg
  exact Fragment.twins_iff (isPoint_of_mem_points hpoint) (hsimple f hf) (hsimple g hg) hfpoint
    hgpoint

/-- The check of a shard passes just when the shard has no twins. -/
theorem Shard.duplicate?_eq_none_iff_not_haveTwins
    (hpoint : point ∈ points (observedAxes dims fragments)) :
    (shardAt fragments i point).duplicate? = none ↔
      ¬ HaveTwins (shardAt fragments i point).fragments := by
  rw [duplicate?_eq_none_iff, not_haveTwins_iff, List.Nodup, List.pairwise_map]
  apply List.Pairwise.iff_of_mem
  intro f g hf hg
  exact not_congr (twins_iff_of_mem_shardAt hsimple hpoint hf hg).symm

/-- What the check of a shard reports is the second of two twins in it. -/
theorem Shard.of_duplicate?_eq_some (hpoint : point ∈ points (observedAxes dims fragments))
    {fault : Fault} (h : (shardAt fragments i point).duplicate? = some fault) :
    ∃ f g, [f, g].Sublist (shardAt fragments i point).fragments ∧ f.Twins g ∧
      fault = .duplicateFragment g.module g.axis? i := by
  obtain ⟨g, hg, rfl⟩ := Option.map_eq_some_iff.1 h
  rcases of_firstRepeated?_eq_some hg with ⟨-, hseen⟩ | ⟨f, hpair, hkey⟩
  · cases hseen
  · have hf := hpair.subset (by simp : f ∈ [f, g])
    have hg := hpair.subset (by simp : g ∈ [f, g])
    exact ⟨f, g, hpair, (twins_iff_of_mem_shardAt hsimple hpoint hf hg).2 hkey, rfl⟩

/-- Fragments without values off the dimensions that are sharded on have twins just when some shard
has. -/
theorem haveTwins_iff_exists_candidateShard (hinside : ∀ f ∈ fragments, ¬ f.LiesOutside dims) :
    HaveTwins fragments ↔ ∃ shard ∈ candidateShards dims fragments, HaveTwins shard.fragments := by
  constructor
  · rintro ⟨f, g, hpair, htwins⟩
    have hf := hpair.subset (by simp : f ∈ [f, g])
    have hg := hpair.subset (by simp : g ∈ [f, g])
    obtain ⟨point, hpoint, hfpoint⟩ := exists_point_appliesTo hinside hf
    have hgpoint := htwins.appliesTo (hsimple f hf) (hsimple g hg) hfpoint
    obtain ⟨i, hi⟩ := List.mem_iff_getElem?.1 hpoint
    refine ⟨shardAt fragments i point, mem_candidateShards.2 ⟨i, point, hi, rfl⟩, f, g, ?_, htwins⟩
    have hboth : [f, g].filter (·.appliesTo point) = [f, g] := by simp [hfpoint, hgpoint]
    have hkept := hpair.filter (·.appliesTo point)
    rwa [hboth] at hkept
  · rintro ⟨shard, hshard, f, g, hpair, htwins⟩
    obtain ⟨i, point, -, rfl⟩ := mem_candidateShards.1 hshard
    exact ⟨f, g, hpair.trans List.filter_sublist, htwins⟩

/-- Simple fragments of which some are twins are turned down, naming the first shard with twins, and
the second of twins there. -/
theorem shards_eq_duplicate (hinside : ∀ f ∈ fragments, ¬ f.LiesOutside dims)
    (htwins : HaveTwins fragments) :
    ∃ i shard f g, (candidateShards dims fragments)[i]? = some shard ∧
      [f, g].Sublist shard.fragments ∧ f.Twins g ∧
      (∀ j < i, ∀ earlier, (candidateShards dims fragments)[j]? = some earlier →
        ¬ HaveTwins earlier.fragments) ∧
      shards dims fragments = .error (.duplicateFragment g.module g.axis? i) := by
  have hcheck : ∀ shard ∈ candidateShards dims fragments,
      (shard.duplicate? = none ↔ ¬ HaveTwins shard.fragments) := by
    intro shard hshard
    obtain ⟨i, point, hpoint, rfl⟩ := mem_candidateShards.1 hshard
    exact Shard.duplicate?_eq_none_iff_not_haveTwins hsimple (List.mem_of_getElem? hpoint)
  rcases shards_cases dims fragments with ⟨rfl, -⟩ | ⟨-, fault, hunsharded, -⟩ |
    ⟨-, -, fault, hfault, herror⟩ | ⟨-, -, hnone, -⟩
  · obtain ⟨f, g, hpair, -⟩ := htwins
    cases hpair
  · rw [unsharded?_eq_none_iff.2 hinside] at hunsharded
    cases hunsharded
  · obtain ⟨i, shard, hshard, hduplicate, hfirst⟩ := exists_getElem?_of_findSome?_eq_some hfault
    have hshardAt := hshard
    rw [getElem?_candidateShards, Option.map_eq_some_iff] at hshardAt
    obtain ⟨point, hpoint, rfl⟩ := hshardAt
    obtain ⟨f, g, hpair, htwins, rfl⟩ :=
      Shard.of_duplicate?_eq_some hsimple (List.mem_of_getElem? hpoint) hduplicate
    refine ⟨i, _, f, g, hshard, hpair, htwins, ?_, herror⟩
    intro j hj earlier hearlier
    exact (hcheck earlier (List.mem_of_getElem? hearlier)).1 (hfirst j hj earlier hearlier)
  · obtain ⟨shard, hshard, hmeet⟩ := (haveTwins_iff_exists_candidateShard hsimple hinside).1 htwins
    exact absurd hmeet ((hcheck shard hshard).1 (hnone shard hshard))

/-- Simple fragments of which none are twins can be sharded, and no shard has two for one axis. -/
theorem shards_eq_ok_of_not_haveTwins (hinside : ∀ f ∈ fragments, ¬ f.LiesOutside dims)
    (htwins : ¬ HaveTwins fragments) :
    ∃ found, shards dims fragments = .ok found ∧ ∀ shard ∈ found,
      (shard.fragments.map fun f => (f.module, f.axis?)).Nodup := by
  rcases shards_cases dims fragments with ⟨-, hok⟩ | ⟨-, fault, hunsharded, -⟩ |
    ⟨-, -, fault, hfault, -⟩ | ⟨-, -, hnone, hok⟩
  · exact ⟨[], hok, by simp⟩
  · rw [unsharded?_eq_none_iff.2 hinside] at hunsharded
    cases hunsharded
  · obtain ⟨shard, hshard, hduplicate⟩ := List.exists_of_findSome?_eq_some hfault
    obtain ⟨i, point, hpoint, rfl⟩ := mem_candidateShards.1 hshard
    obtain ⟨f, g, hpair, hfg, -⟩ :=
      Shard.of_duplicate?_eq_some hsimple (List.mem_of_getElem? hpoint) hduplicate
    exact absurd ⟨f, g, hpair.trans List.filter_sublist, hfg⟩ htwins
  · refine ⟨_, hok, ?_⟩
    intro shard hshard
    exact Shard.duplicate?_eq_none_iff.1 (hnone shard hshard)

end Simple

/-! ### Rejection -/

/-- Fragments of which some have a value off the dimensions that are sharded on are turned down for
the first of these. -/
theorem shards_eq_unsharded (houtside : ∃ f ∈ fragments, f.LiesOutside dims) :
    ∃ front f rest v, fragments = front ++ f :: rest ∧ (∀ g ∈ front, ¬ g.LiesOutside dims) ∧
      f.LiesOutside dims ∧ v ∈ f.targeting.values ∧
      shards dims fragments = .error (.unshardedDimension f.module v.dimension) := by
  obtain ⟨f, hf, hlies⟩ := houtside
  rcases shards_cases dims fragments with ⟨rfl, -⟩ | ⟨-, fault, hunsharded, herror⟩ |
    ⟨-, hunsharded, -⟩ | ⟨-, hunsharded, -⟩
  · cases hf
  · obtain ⟨front, f, rest, hsplit, hfront, hmaster, v, hv, hd, rfl⟩ :=
      of_unsharded?_eq_some hunsharded
    exact ⟨front, f, rest, v, hsplit, hfront, ⟨hmaster, v, hv, hd⟩, hv, herror⟩
  · exact absurd hlies (unsharded?_eq_none_iff.1 hunsharded f hf)
  · exact absurd hlies (unsharded?_eq_none_iff.1 hunsharded f hf)

/-- Two simple fragments of a module in a shard without repeated axes are not both for every device,
and not for values along one dimension. -/
theorem axes_ne_of_nodup (hf : f.IsSimple) (hg : g.IsSimple) {l : List Fragment}
    (hkeys : (l.map fun f => (f.module, f.axis?)).Nodup) (hpair : [f, g].Sublist l)
    (hmodule : f.module = g.module) : ¬ (f.master = true ∧ g.master = true) ∧
      ∀ v ∈ f.targeting.values, ∀ w ∈ g.targeting.values, v.dimension ≠ w.dimension := by
  have haxis : f.axis? ≠ g.axis? := by
    intro haxis
    have hnodup := hkeys.sublist (hpair.map _)
    simp [hmodule, haxis] at hnodup
  rw [Ne, hf.axis?_eq_iff hg, not_or] at haxis
  refine ⟨haxis.1, ?_⟩
  intro v hv w hw hdimension
  exact haxis.2 ⟨v, hv, w, hw, hdimension⟩

/-- Fragments that each are for every device without a value, or for the devices with one value, are
turned down for a value off the dimensions that are sharded on just when some fragment has one, and
the first such fragment is named.  Otherwise they are turned down for a duplicate just when two of
them, at different positions, are of one module and both for every device or for the same value, and
the first shard is named that has two such fragments.  Otherwise there are shards, and in none of
them are two fragments of one module both for every device or targeted along one dimension. -/
theorem shards_rejects (hsimple : ∀ f ∈ fragments, f.IsSimple) :
    ((∃ name d, shards dims fragments = .error (.unshardedDimension name d)) ↔
      ∃ f ∈ fragments, f.LiesOutside dims) ∧
    (∀ name d, shards dims fragments = .error (.unshardedDimension name d) →
      ∃ front f rest v, fragments = front ++ f :: rest ∧ (∀ g ∈ front, ¬ g.LiesOutside dims) ∧
        f.LiesOutside dims ∧ f.targeting.values = [v] ∧ name = f.module ∧ d = v.dimension) ∧
    ((∃ name a i, shards dims fragments = .error (.duplicateFragment name a i)) ↔
      (∀ f ∈ fragments, ¬ f.LiesOutside dims) ∧ HaveTwins fragments) ∧
    (∀ name a i, shards dims fragments = .error (.duplicateFragment name a i) →
      ∃ shard f g, (candidateShards dims fragments)[i]? = some shard ∧
        [f, g].Sublist shard.fragments ∧ f.Twins g ∧ name = g.module ∧ a = g.axis? ∧
        ∀ j < i, ∀ earlier, (candidateShards dims fragments)[j]? = some earlier →
          ¬ HaveTwins earlier.fragments) ∧
    ((∃ found, shards dims fragments = .ok found) ↔
      (∀ f ∈ fragments, ¬ f.LiesOutside dims) ∧ ¬ HaveTwins fragments) ∧
    ∀ found, shards dims fragments = .ok found → ∀ shard ∈ found, ∀ f g,
      [f, g].Sublist shard.fragments → f.module = g.module →
        ¬ (f.master = true ∧ g.master = true) ∧
        ∀ v ∈ f.targeting.values, ∀ w ∈ g.targeting.values, v.dimension ≠ w.dimension := by
  by_cases houtside : ∃ f ∈ fragments, f.LiesOutside dims
  case pos =>
    obtain ⟨front, f, rest, v, hsplit, hfront, hlies, hv, herror⟩ := shards_eq_unsharded houtside
    have hvalue : f.targeting.values = [v] := by
      have hf : f ∈ fragments := by simp [hsplit]
      rcases hsimple f hf with ⟨-, hnone⟩ | ⟨-, w, hw⟩
      · rw [hnone] at hv
        cases hv
      · rw [hw] at hv
        rw [hw, List.mem_singleton.1 hv]
    have hsome : ¬ ∀ f ∈ fragments, ¬ f.LiesOutside dims := by simpa using houtside
    rw [herror]
    refine ⟨⟨fun _ => houtside, fun _ => ⟨_, _, rfl⟩⟩, ?first, ?_, by simp, ?_, by simp⟩
    case first =>
      intro name d hfault
      cases hfault
      exact ⟨front, f, rest, v, hsplit, hfront, hlies, hvalue, rfl, rfl⟩
    all_goals simp [hsome]
  case neg =>
    have hinside : ∀ f ∈ fragments, ¬ f.LiesOutside dims := by simpa using houtside
    by_cases htwins : HaveTwins fragments
    case pos =>
      obtain ⟨i, shard, f, g, hshard, hpair, hfg, hearlier, herror⟩ :=
        shards_eq_duplicate hsimple hinside htwins
      rw [herror]
      refine ⟨by simp [houtside], by simp, ⟨fun _ => ⟨hinside, htwins⟩, fun _ => ⟨_, _, _, rfl⟩⟩,
        ?shard, by simp [htwins], by simp⟩
      case shard =>
        intro name a j hfault
        cases hfault
        exact ⟨shard, f, g, hshard, hpair, hfg, rfl, rfl, hearlier⟩
    case neg =>
      obtain ⟨found, hok, hkeys⟩ := shards_eq_ok_of_not_haveTwins hsimple hinside htwins
      rw [hok]
      refine ⟨by simp [houtside], by simp, by simp [htwins], by simp,
        ⟨fun _ => ⟨hinside, htwins⟩, fun _ => ⟨_, rfl⟩⟩, ?axes⟩
      case axes =>
        intro _ hfound shard hshard f g hpair hmodule
        cases hfound
        have hmem : ∀ x ∈ [f, g], x.IsSimple := by
          intro x hx
          exact hsimple x (fragments_subset_of_shards hok hshard (hpair.subset hx))
        exact axes_ne_of_nodup (hmem f (by simp)) (hmem g (by simp)) (hkeys shard hshard) hpair
          hmodule

/-- Fragments of one module for two architectures, the second of them twice. -/
def repeatedFragments : List Fragment :=
  [.ofMaster "base" ⟨"app", ∅, ∅⟩ [], .ofValue "base" ⟨"app", ∅, ∅⟩ (.abi .mips) [],
   .ofValue "base" ⟨"app", ∅, ∅⟩ (.abi .x86) [], .ofValue "base" ⟨"app", ∅, ∅⟩ (.abi .mips) []]

theorem shards_rejects_repeatedFragments :
    (∀ f ∈ repeatedFragments, f.IsSimple) ∧
    (∃ name a i, shards (.ofList [.abi]) repeatedFragments =
      .error (.duplicateFragment name a i)) ∧
    ∃ name d, shards (.ofList [.language]) repeatedFragments =
      .error (.unshardedDimension name d) := by
  let mips : Fragment := .ofValue "base" ⟨"app", ∅, ∅⟩ (.abi .mips) []
  have hsimple : ∀ f ∈ repeatedFragments, f.IsSimple := by
    intro f hf
    simp only [repeatedFragments, List.mem_cons, List.not_mem_nil, or_false] at hf
    rcases hf with rfl | rfl | rfl | rfl
    · exact .inl ⟨rfl, rfl⟩
    all_goals exact .inr ⟨rfl, _, rfl⟩
  have hinside : ∀ f ∈ repeatedFragments, ¬ f.LiesOutside (.ofList [.abi]) :=
    unsharded?_eq_none_iff.1 rfl
  have htwins : HaveTwins repeatedFragments :=
    ⟨mips, mips, by decide, rfl, .inr ⟨.abi .mips, by decide, by decide⟩⟩
  have houtside : ∃ f ∈ repeatedFragments, f.LiesOutside (.ofList [.language]) :=
    ⟨mips, by decide, rfl, .abi .mips, by decide, by decide⟩
  obtain ⟨-, -, hduplicate, -⟩ := @shards_rejects (.ofList [.abi]) _ hsimple
  obtain ⟨hunsharded, -⟩ := @shards_rejects (.ofList [.language]) _ hsimple
  exact ⟨hsimple, hduplicate.2 ⟨hinside, htwins⟩, hunsharded.2 houtside⟩

example : shards (.ofList [.abi]) repeatedFragments =
    .error (.duplicateFragment "base" (some .abi) 1) := by rfl

end BundlePackaging
