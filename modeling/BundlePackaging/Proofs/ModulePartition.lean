import BundlePackaging.Proofs.Pinning

/-!
# Distribution over the fragments of a module

The entries that variant selection leaves are distributed over the fragments of their module, and
nothing else is.  What goes to one place are the selected entries with one destination, in their
order, so no entry is lost or taken twice, and there is a fragment besides the master fragment just
for each value that is the destination of some entry.

## Main definitions

* `Policy.candidatesAt` — the selected entries that go to one place.
* `Candidate.IsLeastValue` — the value of an entry that decides where it goes.

## Main results

* `Policy.entriesAt_placements` — the entries of a fragment are the selected ones that go there.
* `Policy.candidatesAt_perm` — the selected entries are those that go to the places, each once.
* `Policy.partition_distributes` — **the fragments of a module are its selected entries, master
  fragment first and then value by value.**
-/

namespace BundlePackaging

variable {p : Policy} {m : BundleModule} {dims : SortedSet Dimension} {c : Candidate} {v : Value}

/-! ### What is distributed -/

theorem text_placeholderPath (a : Abi) :
    (placeholderPath a).text = "lib/" ++ a.name ++ "/libplaceholder.so" := by
  cases a <;> rfl

namespace Policy

/-- The policy changes an entry at most by having its content stored as it is. -/
theorem compress_eq_or (p : Policy) (e : Entry) :
    p.compress e = e ∨ p.compress e = { e with compression := .uncompressed } := by
  unfold compress
  split
  · exact .inr rfl
  · exact .inl rfl

/-! ### Places -/

/-- The selected entries that go to the fragment of a value, or to the master fragment. -/
def candidatesAt (p : Policy) (m : BundleModule) (dims : SortedSet Dimension) (d : Option Value) :
    List Candidate :=
  (p.selected m dims).filter fun c => (p.destination m dims c).value? = d

theorem candidatesAt_sublist (p : Policy) (m : BundleModule) (dims : SortedSet Dimension)
    (d : Option Value) : (p.candidatesAt m dims d).Sublist (p.selected m dims) :=
  List.filter_sublist

theorem value?_destination_of_mem_candidatesAt {d : Option Value}
    (h : c ∈ p.candidatesAt m dims d) : (p.destination m dims c).value? = d :=
  of_decide_eq_true (List.mem_filter.1 h).2

/-- The entries of a fragment are the selected ones that go there, in their order. -/
theorem entriesAt_placements (d : Option Value) :
    entriesAt (p.placements m dims) d =
      (p.candidatesAt m dims d).map fun c => p.compress c.entry := by
  unfold entriesAt placements candidatesAt
  rw [List.filter_map, List.map_map]
  rfl

/-- The fragments of a module, in terms of the selected entries. -/
theorem partition_eq (p : Policy) (m : BundleModule) (dims : SortedSet Dimension) :
    p.partition m dims =
      .ofMaster m.name m.manifest
        ((p.candidatesAt m dims none).map fun c => p.compress c.entry) ::
      (occurringValues (p.placements m dims)).toList.map fun v =>
        .ofValue m.name m.manifest v
          ((p.candidatesAt m dims (some v)).map fun c => p.compress c.entry) := by
  unfold partition
  simp only [entriesAt_placements]

/-- The selected entries are those that go to the master fragment and those that go to the values
that occur, each once. -/
theorem candidatesAt_perm (p : Policy) (m : BundleModule) (dims : SortedSet Dimension) :
    (p.candidatesAt m dims none ++
      (occurringValues (p.placements m dims)).toList.flatMap fun v =>
        p.candidatesAt m dims (some v)).Perm (p.selected m dims) := by
  apply groups_perm (fun c => (p.destination m dims c).value?)
    (occurringValues (p.placements m dims)).nodup
  intro c hc v hv
  exact mem_occurringValues.2 ⟨c, hc, hv⟩

/-- Some entry goes to each value that occurs. -/
theorem candidatesAt_ne_nil (hv : v ∈ occurringValues (p.placements m dims)) :
    p.candidatesAt m dims (some v) ≠ [] := by
  obtain ⟨c, hc, hd⟩ := mem_occurringValues.1 hv
  apply List.ne_nil_of_mem (a := c)
  exact List.mem_filter.2 ⟨hc, decide_eq_true hd⟩

end Policy

/-! ### The deciding value -/

/-- A value is that of a candidate along the least of the dimensions along which it has one. -/
def Candidate.IsLeastValue (c : Candidate) (dims : SortedSet Dimension) (v : Value) : Prop :=
  ∃ d ∈ dims, c.targeting.get? d = some v ∧
    ∀ e ∈ dims, (c.targeting.get? e).isSome → d.rank ≤ e.rank

namespace Policy

/-- An entry goes to a value just when its resource is not pinned and this is its value along the
least of the dimensions along which it has one. -/
theorem value?_destination_eq_some_iff_isLeastValue :
    (p.destination m dims c).value? = some v ↔
      ¬ p.pinsPath m c.entry.path ∧ c.IsLeastValue dims v := by
  rw [value?_destination_eq_some]
  apply and_congr_right
  intro _
  apply exists_congr
  intro d
  apply and_congr_right
  intro _
  have hnone (e : Dimension) : (e.rank < d.rank → c.targeting.get? e = none) ↔
      ((c.targeting.get? e).isSome → d.rank ≤ e.rank) := by
    cases c.targeting.get? e <;> simp
  simp only [hnone]
  exact and_comm

/-- The dimension of the value that an entry goes to is among those of the partition. -/
theorem dimension_mem_of_value?_destination (h : (p.destination m dims c).value? = some v) :
    v.dimension ∈ dims := by
  obtain ⟨-, d, hd, hget, -⟩ := value?_destination_eq_some_iff_isLeastValue.1 h
  rwa [Targeting.dimension_of_get? hget]

/-! ### The fragments -/

/-- The fragments of a module have together the selected entries, each with the compression that the
policy asks for.  First comes the master fragment, with the entries that are pinned or have no value
along the dimensions; then, in ascending order, one fragment for each value of a dimension that is
the least value of some entry, with entries that have it as their least value.  Within each fragment
the entries are in the order in which they were selected. -/
theorem partition_distributes (p : Policy) (m : BundleModule) (dims : SortedSet Dimension) :
    p.selected m dims = selectVariants p.variantChoices (m.slots.map Slot.candidate ++
      if m.isBase ∧ .abi ∈ dims ∧ p.placeholderAbis ≠ ∅ ∧ m.hasNativeLibraries = false
      then p.placeholderAbis.toList.map placeholder else []) ∧
    (∀ a, (placeholder a).entry.path.text = "lib/" ++ a.name ++ "/libplaceholder.so" ∧
      (placeholder a).entry.content = .empty) ∧
    (∀ e, p.compress e = e ∨ p.compress e = { e with compression := .uncompressed }) ∧
    ((p.partition m dims).flatMap (·.entries)).Perm
      ((p.selected m dims).map fun c => p.compress c.entry) ∧
    ∃ (unassigned : List Candidate) (groups : List (Value × List Candidate)),
      p.partition m dims =
        .ofMaster m.name m.manifest (unassigned.map fun c => p.compress c.entry) ::
          groups.map (fun g =>
            .ofValue m.name m.manifest g.1 (g.2.map fun c => p.compress c.entry)) ∧
      (unassigned ++ groups.flatMap (·.2)).Perm (p.selected m dims) ∧
      unassigned.Sublist (p.selected m dims) ∧
      (∀ c ∈ unassigned, p.pinsPath m c.entry.path ∨ ∀ d ∈ dims, c.targeting.get? d = none) ∧
      Ascending (groups.map (·.1)) ∧
      ∀ g ∈ groups, g.1.dimension ∈ dims ∧ (Targeting.ofValue g.1).values = [g.1] ∧
        g.2 ≠ [] ∧ g.2.Sublist (p.selected m dims) ∧ ∀ c ∈ g.2, c.IsLeastValue dims g.1 := by
  have hselected := congrArg (selectVariants p.variantChoices) (p.offered_eq m dims)
  have hentries : ((p.partition m dims).flatMap (·.entries)).Perm
      ((p.selected m dims).map fun c => p.compress c.entry) := by
    have hplaced := p.entries_partition_perm m dims
    unfold placements at hplaced
    rwa [List.map_map] at hplaced
  refine ⟨hselected, fun a => ⟨text_placeholderPath a, rfl⟩, p.compress_eq_or, hentries,
    p.candidatesAt m dims none,
    (occurringValues (p.placements m dims)).toList.map fun v => (v, p.candidatesAt m dims (some v)),
    ?partition, ?all, p.candidatesAt_sublist m dims none, ?unassigned, ?order, ?groups⟩
  case partition =>
    rw [partition_eq, List.map_map]
    rfl
  case all =>
    rw [List.flatMap_map]
    exact p.candidatesAt_perm m dims
  case unassigned =>
    intro c hc
    exact value?_destination_eq_none.1 (value?_destination_of_mem_candidatesAt hc)
  case order =>
    rw [List.map_map]
    show Ascending ((occurringValues (p.placements m dims)).toList.map id)
    rw [List.map_id]
    exact (occurringValues (p.placements m dims)).ascending
  case groups =>
    intro g hg
    obtain ⟨v, hv, rfl⟩ := List.mem_map.1 hg
    obtain ⟨c, -, hd⟩ := mem_occurringValues.1 (SortedSet.mem_def.2 hv)
    refine ⟨dimension_mem_of_value?_destination hd, Targeting.values_ofValue v,
      candidatesAt_ne_nil hv, p.candidatesAt_sublist m dims (some v), fun c hc => ?_⟩
    exact (value?_destination_eq_some_iff_isLeastValue.1
      (value?_destination_of_mem_candidatesAt hc)).2

end Policy
end BundlePackaging
