import BundlePackaging.Proofs.Distribution
import BundlePackaging.Proofs.Selection

/-!
# The paths of a module's fragments

Every entry that variant selection leaves goes to exactly one fragment, so the fragments have the
paths of these entries, each as often as it occurs among them.  The entries that a module offers lie
at distinct paths, and selection moves none but those of chosen variants.  A fallback gives way to a
variant that ends up at its path; a variant gives way to nothing, not even to another variant.

## Main definitions

* `Resolution.fallbackPath?` — the path of a candidate that the choices leave as it is.

## Main results

* `Policy.entries_partition_perm` — the fragments have the distributed entries, each once.
* `Policy.nodup_paths_offered` — the entries among which variants are chosen have distinct paths.
* `Policy.paths_selected_perm` — the paths that selection leaves.
* `nodup_paths_partition_iff` — **two entries are emitted at one path just when two entries of
  chosen variants end up at one path.**
-/

namespace BundlePackaging

/-! ### Groups of a list -/

/-- The groups of some keys have together the members with these keys. -/
theorem flatMap_filter_perm {α β : Type} [DecidableEq β] (key : α → Option β) {vs : List β}
    (h : vs.Nodup) (l : List α) :
    (vs.flatMap fun v => l.filter fun a => key a = some v).Perm
      (l.filter fun a => key a ∈ vs.map some) := by
  induction vs with
  | nil => simp
  | cons v vs ih =>
    obtain ⟨hv, hvs⟩ := List.nodup_cons.1 h
    -- of the members with these keys, those with the first key and the others
    have hfirst : (l.filter fun a => key a ∈ (v :: vs).map some).filter (fun a => key a = some v) =
        l.filter fun a => key a = some v := by
      rw [List.filter_filter]
      refine List.filter_congr fun a _ => ?_
      by_cases ha : key a = some v <;> simp [ha]
    have hrest : (l.filter fun a => key a ∈ (v :: vs).map some).filter
        (fun a => !decide (key a = some v)) = l.filter fun a => key a ∈ vs.map some := by
      rw [List.filter_filter]
      refine List.filter_congr fun a _ => ?_
      by_cases ha : key a = some v <;> simp [ha, hv]
    have hparts := List.filter_append_perm (fun a => key a = some v)
      (l.filter fun a => key a ∈ (v :: vs).map some)
    rw [hfirst, hrest] at hparts
    exact ((ih hvs).append_left _).trans hparts

/-- The members without a key and the groups of the others are all members, if each key that occurs
is among those whose groups are taken. -/
theorem groups_perm {α β : Type} [DecidableEq β] (key : α → Option β) {vs : List β} {l : List α}
    (h : vs.Nodup) (hkeys : ∀ a ∈ l, ∀ v, key a = some v → v ∈ vs) :
    (l.filter (fun a => key a = none) ++
      vs.flatMap fun v => l.filter fun a => key a = some v).Perm l := by
  have hkeyed : l.filter (fun a => key a ∈ vs.map some) =
      l.filter fun a => !decide (key a = none) := by
    refine List.filter_congr fun a ha => ?_
    cases hv : key a with
    | none => simp
    | some v => simpa using hkeys a ha v hv
  have hgroups := flatMap_filter_perm key h l
  rw [hkeyed] at hgroups
  exact (hgroups.append_left _).trans (List.filter_append_perm _ _)

variable {p : Policy} {m : BundleModule} {dims : SortedSet Dimension}

/-! ### Fragments and entries -/

namespace Policy

/-- The fragments of a module have together the entries that are distributed, each once. -/
theorem entries_partition_perm (p : Policy) (m : BundleModule) (dims : SortedSet Dimension) :
    ((p.partition m dims).flatMap (·.entries)).Perm ((p.placements m dims).map (·.1)) := by
  have hentries : (p.partition m dims).flatMap (·.entries) =
      ((p.placements m dims).filter (fun e => e.2.value? = none) ++
        (occurringValues (p.placements m dims)).toList.flatMap fun v =>
          (p.placements m dims).filter fun e => e.2.value? = some v).map (·.1) := by
    simp only [partition, List.flatMap_cons, List.flatMap_map, List.map_append, List.map_flatMap]
    rfl
  rw [hentries]
  refine (groups_perm (fun e : Entry × Destination => e.2.value?)
    (occurringValues (p.placements m dims)).nodup ?_).map _
  intro e he v hv
  exact SortedSet.mem_def.1 (SortedSet.mem_ofList.2 (List.mem_filterMap.2 ⟨e, he, hv⟩))

theorem map_path_placements :
    ((p.placements m dims).map (·.1)).map (·.path) = (p.selected m dims).map (·.entry.path) := by
  unfold placements
  rw [List.map_map, List.map_map]
  exact List.map_congr_left fun c _ => p.path_compress c.entry

/-- The fragments of a module have together the paths of its selected entries. -/
theorem paths_partition_perm (p : Policy) (m : BundleModule) (dims : SortedSet Dimension) :
    ((p.partition m dims).flatMap (·.paths)).Perm ((p.selected m dims).map (·.entry.path)) := by
  have hentries := (p.entries_partition_perm m dims).map Entry.path
  rw [map_path_placements, List.map_flatMap] at hentries
  exact hentries

end Policy

/-! ### Offered entries -/

theorem isNativeLibrary_placeholderPath (a : Abi) : (placeholderPath a).isNativeLibrary := by
  cases a <;> rfl

theorem Abi.mem_all (a : Abi) : a ∈ Abi.all := by cases a <;> decide

theorem placeholderPath_injective : Function.Injective placeholderPath := by
  have hdistinct : (Abi.all.map placeholderPath).Nodup := by decide
  intro a b h
  exact List.inj_on_of_nodup_map hdistinct (Abi.mem_all a) (Abi.mem_all b) h

theorem BundleModule.map_path_candidates (m : BundleModule) :
    m.candidates.map (·.entry.path) = m.slots.map (·.entry.path) := by
  unfold candidates
  rw [List.map_map]
  rfl

namespace Policy

theorem mem_placeholders {c : Candidate} (h : c ∈ p.placeholders m dims) :
    p.addsPlaceholders m dims ∧ ∃ a, c = placeholder a := by
  unfold placeholders at h
  split at h
  · next hadds =>
    obtain ⟨a, -, rfl⟩ := List.mem_map.1 h
    exact ⟨hadds, a, rfl⟩
  · cases h

/-- An empty native library lies at no path of the module, which has no native library. -/
theorem path_placeholder_notMem {c : Candidate} (h : c ∈ p.placeholders m dims) :
    c.entry.path ∉ m.slots.map (·.entry.path) := by
  intro hpath
  obtain ⟨hadds, a, rfl⟩ := mem_placeholders h
  obtain ⟨s, hs, hpath⟩ := List.mem_map.1 hpath
  have hnative : m.hasNativeLibraries := by
    refine List.any_eq_true.2 ⟨s.entry, List.mem_map_of_mem hs, ?_⟩
    rw [hpath]
    exact isNativeLibrary_placeholderPath a
  unfold addsPlaceholders at hadds
  simp [hnative] at hadds

/-- The entries among which variants are chosen have distinct paths. -/
theorem nodup_paths_offered : ((p.offered m dims).map (·.entry.path)).Nodup := by
  have hplaceholders : ((p.placeholders m dims).map (·.entry.path)).Nodup := by
    unfold placeholders
    split
    · rw [List.map_map]
      exact p.placeholderAbis.nodup.map placeholderPath_injective
    · exact .nil
  unfold offered
  rw [List.map_append, m.map_path_candidates, List.nodup_append]
  refine ⟨m.distinct, hplaceholders, ?_⟩
  rintro q hq _ hq' rfl
  obtain ⟨c, hc, rfl⟩ := List.mem_map.1 hq'
  exact path_placeholder_notMem hc hq

end Policy

/-! ### Selected entries -/

/-- The path of a candidate that stays and is not of a chosen variant. -/
def Resolution.fallbackPath? : Resolution → Option EntryPath
  | kept c false => some c.entry.path
  | _ => none

/-- Candidates that stay are at the paths of variants, or at the paths of fallbacks at which no
variant is. -/
theorem map_path_survivors_perm (variantPaths : List EntryPath) (resolutions : List Resolution) :
    ((resolutions.filterMap (Resolution.survivor? variantPaths)).map (·.entry.path)).Perm
      (resolutions.filterMap Resolution.variantPath? ++
        (resolutions.filterMap Resolution.fallbackPath?).filter (· ∉ variantPaths)) := by
  induction resolutions with
  | nil => exact .nil
  | cons r rs ih =>
    cases r with
    | dropped path value => exact ih
    | kept c isVariant =>
      cases isVariant with
      | true => exact ih.cons c.entry.path
      | false =>
        rw [List.filterMap_cons, List.filterMap_cons, List.filterMap_cons]
        by_cases hpath : c.entry.path ∈ variantPaths
        · simpa [Resolution.survivor?, Resolution.variantPath?, Resolution.fallbackPath?,
            hpath] using ih
        · simpa [Resolution.survivor?, Resolution.variantPath?, Resolution.fallbackPath?,
            hpath] using (ih.cons c.entry.path).trans List.perm_middle.symm

namespace Policy

/-- A fallback is at a path at which the module offers it. -/
theorem path_of_fallbackPath? {c : Candidate} {q : EntryPath}
    (h : (c.resolve p.variantChoices).fallbackPath? = some q) : q = c.entry.path := by
  cases hres : c.resolve p.variantChoices with
  | dropped path value =>
    rw [hres] at h
    cases h
  | kept b isVariant =>
    rw [hres] at h
    cases isVariant with
    | true => cases h
    | false =>
      obtain ⟨-, hentry, hnone⟩ := Candidate.of_resolveFrom_eq_kept
        nodup_dimensions_variantChoices hres
      -- no choice is about the candidate, so none has stripped a suffix
      have hchoices : p.variantChoices.filter c.concernedBy = [] := by
        rw [List.filter_eq_nil_iff]
        intro r hr hconcern
        rw [Bool.false_or, eq_comm, List.any_eq_false] at hnone
        exact hnone r hr hconcern
      obtain rfl := Option.some.inj h
      rw [hentry, Candidate.strippedPath, hchoices]
      rfl

theorem nodup_fallbackPaths {l : List Candidate} (h : (l.map (·.entry.path)).Nodup) :
    ((l.map (Candidate.resolve p.variantChoices)).filterMap Resolution.fallbackPath?).Nodup := by
  rw [List.filterMap_map, List.Nodup, List.pairwise_filterMap]
  refine (List.pairwise_map.1 h).imp ?_
  intro c d hne q hq r hr
  rw [path_of_fallbackPath? hq, path_of_fallbackPath? hr]
  exact hne

/-- The entries that remain are at the paths of chosen variants, or at the paths of fallbacks at
which no variant is. -/
theorem paths_selected_perm (p : Policy) (m : BundleModule) (dims : SortedSet Dimension) :
    ∃ fallbacks : List EntryPath, fallbacks.Nodup ∧
      (∀ q ∈ fallbacks, q ∉ p.variantPaths m dims) ∧
      ((p.selected m dims).map (·.entry.path)).Perm (p.variantPaths m dims ++ fallbacks) := by
  refine ⟨_, ?_, ?_, map_path_survivors_perm (p.variantPaths m dims)
    ((p.offered m dims).map (Candidate.resolve p.variantChoices))⟩
  · exact (nodup_fallbackPaths nodup_paths_offered).filter _
  · intro q hq
    simpa using (List.mem_filter.1 hq).2

end Policy

/-! ### Emitted paths -/

/-- Two entries of a module's fragments are at one path just when two entries of chosen variants end
up at one path. -/
theorem nodup_paths_partition_iff (p : Policy) (m : BundleModule) (dims : SortedSet Dimension) :
    ((p.partition m dims).flatMap (·.paths)).Nodup ↔ (p.variantPaths m dims).Nodup := by
  obtain ⟨fallbacks, hfallbacks, hapart, hselected⟩ := p.paths_selected_perm m dims
  rw [((p.paths_partition_perm m dims).trans hselected).nodup_iff, List.nodup_append]
  constructor
  · rintro ⟨hvariants, -, -⟩
    exact hvariants
  · intro hvariants
    refine ⟨hvariants, hfallbacks, ?_⟩
    rintro q hq _ hq' rfl
    exact hapart q hq' hq

/-- Texture variants are stripped to one format and tier variants to one tier. -/
def twoStrippingsPolicy : Policy :=
  { suffixPolicies := .ofList
      [(.textureFormat, ⟨true, some "astc"⟩), (.deviceTier, ⟨true, some "1"⟩)] }

/-- A texture for every device, a variant of it for a format, and one for a tier. -/
def twoVariantsModule : BundleModule :=
  { name := "base", kind := .base, manifest := ⟨"app", ∅, ∅⟩
    slots := [⟨⟨⟨"assets/t/a.ktx"⟩, ⟨1, .memory [1]⟩, .compressed⟩, none⟩,
      ⟨⟨⟨"assets/t#tcf_astc/a.ktx"⟩, ⟨2, .memory [2]⟩, .compressed⟩,
        some ⟨.ofValue (.textureFormat .astc), none⟩⟩,
      ⟨⟨⟨"assets/t#tier_1/a.ktx"⟩, ⟨3, .memory [3]⟩, .compressed⟩,
        some ⟨.ofValue (.deviceTier ⟨1⟩), none⟩⟩]
    distinct := by decide }

/-- The variants of a file along two dimensions end up at one path, and both are emitted. -/
theorem not_forall_nodup_paths_partition :
    ¬ ∀ (p : Policy) (m : BundleModule) (dims : SortedSet Dimension),
      ((p.partition m dims).flatMap (·.paths)).Nodup := by
  intro h
  have hboth :
      (twoStrippingsPolicy.partition twoVariantsModule (.ofList [.abi])).flatMap (·.paths) =
        [⟨"assets/t/a.ktx"⟩, ⟨"assets/t/a.ktx"⟩] := rfl
  have hnodup := h twoStrippingsPolicy twoVariantsModule (.ofList [.abi])
  rw [hboth] at hnodup
  simp at hnodup

end BundlePackaging
