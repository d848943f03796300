import BundlePackaging.Partition
import Mathlib.Data.List.Basic

/-!
# Which entries are for which packages

Without directory suffixes to strip, variant selection leaves every entry as it is.  With them it
replaces a fallback by the variants that end up at its path, and leaves all other fallbacks.  What
remains is for the packages that have the entry's value along the first dimension along which it has
one.

## Main definitions

* `Slot.candidate` — an entry of a module, as it takes part in the selection.
* `Candidate.strippedPath` — the path of an entry without the suffixes that the choices strip.
* `Policy.variantPaths` — the paths at which entries of chosen variants end up.
* `Policy.Contributes` — an entry is for the packages with a targeting.

## Main results

* `Policy.offered_eq`, `Policy.mem_offered` — what takes part, module entry by module entry.
* `Candidate.of_resolveFrom_eq_kept` — what the choices make of an entry that stays.
* `Policy.selected_eq_offered` — every entry remains if no suffixes are stripped.
* `Policy.mem_selected_of_fallback` — a fallback remains unless a variant ends up at its path.
* `Policy.forall_value?_iff_contributes` — where an entry goes, said by its targeting.
-/

namespace BundlePackaging

variable {p : Policy} {m : BundleModule} {dims : SortedSet Dimension} {c : Candidate} {v : Value}

/-! ### What takes part -/

/-- The entry of a slot with the devices it is for. -/
def Slot.candidate (s : Slot) : Candidate := ⟨s.entry, (s.config.map (·.targeting)).getD .master⟩

namespace Policy

theorem addsPlaceholders_iff : p.addsPlaceholders m dims ↔
    m.isBase ∧ .abi ∈ dims ∧ p.placeholderAbis ≠ ∅ ∧ m.hasNativeLibraries = false := by
  have hempty : p.placeholderAbis ≠ ∅ ↔ p.placeholderAbis.isEmpty = false := by
    rw [Ne, SortedSet.ext_iff, SortedSet.isEmpty, List.isEmpty_eq_false_iff]
    rfl
  unfold addsPlaceholders
  simp [hempty, and_assoc]

/-- The empty native libraries join the entries of a base module that has no native library, if the
architecture is among the dimensions and architectures are given for them. -/
theorem offered_eq (p : Policy) (m : BundleModule) (dims : SortedSet Dimension) :
    p.offered m dims = m.slots.map Slot.candidate ++
      if m.isBase ∧ .abi ∈ dims ∧ p.placeholderAbis ≠ ∅ ∧ m.hasNativeLibraries = false
      then p.placeholderAbis.toList.map placeholder else [] := by
  unfold offered placeholders
  rw [if_congr addsPlaceholders_iff rfl rfl]
  rfl

/-- What takes part is an entry of the module or the empty native library for an architecture. -/
theorem mem_offered : c ∈ p.offered m dims ↔ (∃ s ∈ m.slots, s.candidate = c) ∨
    (m.isBase ∧ .abi ∈ dims ∧ m.hasNativeLibraries = false) ∧
      ∃ a ∈ p.placeholderAbis, placeholder a = c := by
  have hnonempty {a : Abi} (ha : a ∈ p.placeholderAbis) : p.placeholderAbis ≠ ∅ := by
    intro hempty
    rw [hempty] at ha
    cases ha
  rw [offered_eq, List.mem_append, List.mem_map]
  apply or_congr_right
  split
  · next h =>
    obtain ⟨hbase, habi, -, hlibraries⟩ := h
    simp [hbase, habi, hlibraries, SortedSet.mem_def]
  · next h =>
    simp only [List.not_mem_nil, false_iff]
    rintro ⟨⟨hbase, habi, hlibraries⟩, a, ha, -⟩
    exact h ⟨hbase, habi, hnonempty ha, hlibraries⟩

end Policy

/-! ### Candidates that stay -/

namespace Candidate

/-- Whether a choice is about a candidate, which then has a value along its dimension. -/
def concernedBy (c : Candidate) (r : VariantChoice) : Bool := (c.targeting.get? r.dimension).isSome

/-- The path of a candidate without the suffixes that the choices about it strip. -/
def strippedPath (choices : List VariantChoice) (c : Candidate) : EntryPath :=
  (choices.filter c.concernedBy).foldl (fun q r => q.withoutSuffix r.key) c.entry.path

theorem concernedBy_strip {c : Candidate} {r r' : VariantChoice} (h : r.dimension ≠ r'.dimension) :
    (c.strip r).concernedBy r' = c.concernedBy r' := by
  unfold concernedBy strip
  rw [Targeting.get?_erase, if_neg h]

/-- A candidate that stays has lost its targeting along the dimensions of the choices and the
suffixes of those that are about it; it is of a chosen variant if some choice is. -/
theorem of_resolveFrom_eq_kept {choices : List VariantChoice}
    (hdistinct : (choices.map (·.dimension)).Nodup) {c b : Candidate} {isVariant stripped : Bool}
    (h : c.resolveFrom isVariant choices = .kept b stripped) :
    (∀ d, b.targeting.get? d =
      if d ∈ choices.map (·.dimension) then none else c.targeting.get? d) ∧
      b.entry = c.entry.moveTo (c.strippedPath choices) ∧
      stripped = (isVariant || choices.any c.concernedBy) := by
  induction choices generalizing c isVariant with
  | nil =>
    obtain ⟨rfl, rfl⟩ := Resolution.kept.inj h
    exact ⟨fun d => rfl, rfl, (Bool.or_false _).symm⟩
  | cons r rs ih =>
    obtain ⟨hr, hrs⟩ := List.nodup_cons.1 hdistinct
    unfold resolveFrom at h
    cases hv : c.targeting.get? r.dimension with
    | none =>
      rw [hv] at h
      obtain ⟨htargeting, hentry, hstripped⟩ := ih hrs h
      have hconcern : c.concernedBy r = false := by simp [concernedBy, hv]
      refine ⟨fun d => ?_, ?_, ?_⟩
      · rw [htargeting, List.map_cons]
        by_cases hd : d = r.dimension
        · simp [hd, hv]
        · simp [hd]
      · rw [hentry, strippedPath, strippedPath, List.filter_cons_of_neg (by simp [hconcern])]
      · rw [hstripped, List.any_cons, hconcern, Bool.false_or]
    | some v =>
      simp only [hv] at h
      split at h
      · obtain ⟨htargeting, hentry, hstripped⟩ := ih hrs h
        have hconcern : c.concernedBy r := by simp [concernedBy, hv]
        have hothers : ∀ r' ∈ rs, (c.strip r).concernedBy r' = c.concernedBy r' := fun r' hr' =>
          concernedBy_strip fun heq => hr (List.mem_map.2 ⟨r', hr', heq.symm⟩)
        refine ⟨fun d => ?_, ?_, ?_⟩
        · rw [htargeting, strip, Targeting.get?_erase, List.map_cons]
          by_cases hd : r.dimension = d
          · simp [hd]
          · simp [hd, Ne.symm hd]
        · rw [hentry, strippedPath, strippedPath, List.filter_cons_of_pos hconcern,
            List.filter_congr hothers]
          rfl
        · simp [hstripped, hconcern]
      · cases h

end Candidate

/-! ### Selection -/

theorem selectVariants_nil (candidates : List Candidate) :
    selectVariants [] candidates = candidates := by
  have hvariants :
      (candidates.map (Candidate.resolve [])).filterMap Resolution.variantPath? = [] := by
    rw [List.filterMap_map, List.filterMap_eq_nil_iff]
    exact fun _ _ => rfl
  unfold selectVariants
  simp only [hvariants, List.filterMap_map]
  exact (List.filterMap_congr fun c _ => by simp [Candidate.resolve, Candidate.resolveFrom,
    Resolution.survivor?]).trans List.filterMap_some

namespace Policy

/-- The choices of a policy are along distinct dimensions. -/
theorem nodup_dimensions_variantChoices : (p.variantChoices.map (·.dimension)).Nodup := by
  have hdimensions : Dimension.all.Nodup := by decide
  unfold variantChoices
  rw [List.Nodup, List.pairwise_map, List.pairwise_filterMap]
  refine hdimensions.imp ?_
  intro d e hne r hr r' hr'
  simp only [Option.bind_eq_bind, Option.bind_eq_some_iff, Option.ite_none_right_eq_some,
    Option.some.injEq] at hr hr'
  obtain ⟨_, -, _, -, -, rfl⟩ := hr
  obtain ⟨_, -, _, -, -, rfl⟩ := hr'
  exact hne

theorem variantChoices_eq_nil (htexture : p.stripsSuffix .textureFormat = false)
    (htier : p.stripsSuffix .deviceTier = false) : p.variantChoices = [] := by
  have hoff {d : Dimension} (h : p.stripsSuffix d = false) (rule : SuffixPolicy)
      (hrule : p.suffixPolicy? d = some rule) : rule.enabled = false := by
    unfold stripsSuffix at h
    rw [hrule] at h
    simpa using h
  unfold variantChoices
  rw [List.filterMap_eq_nil_iff]
  intro d _
  cases hrule : p.suffixPolicy? d with
  | none => rfl
  | some rule =>
    cases d with
    | abi => rfl
    | screenDensity => rfl
    | language => rfl
    | textureFormat => simp [Dimension.suffixKey?, hoff htexture rule hrule]
    | deviceTier => simp [Dimension.suffixKey?, hoff htier rule hrule]

/-- Every entry remains if no suffixes are stripped. -/
theorem selected_eq_offered (htexture : p.stripsSuffix .textureFormat = false)
    (htier : p.stripsSuffix .deviceTier = false) : p.selected m dims = p.offered m dims := by
  unfold selected
  rw [variantChoices_eq_nil htexture htier, selectVariants_nil]

/-- The paths at which entries of chosen variants end up. -/
def variantPaths (p : Policy) (m : BundleModule) (dims : SortedSet Dimension) : List EntryPath :=
  ((p.offered m dims).map (Candidate.resolve p.variantChoices)).filterMap Resolution.variantPath?

/-- The candidates that remain are those that the choices keep, but for the fallbacks at whose paths
entries of chosen variants end up. -/
theorem mem_selected : c ∈ p.selected m dims ↔
    ∃ b ∈ p.offered m dims, ∃ isVariant, b.resolve p.variantChoices = .kept c isVariant ∧
      (isVariant ∨ c.entry.path ∉ p.variantPaths m dims) := by
  unfold selected selectVariants
  simp only [List.mem_filterMap, List.mem_map, exists_exists_and_eq_and]
  refine exists_congr fun b => and_congr_right fun _ => ?_
  cases b.resolve p.variantChoices with
  | dropped path value => simp [Resolution.survivor?]
  | kept d isVariant =>
    cases isVariant with
    | true => simp [Resolution.survivor?, eq_comm]
    | false =>
      change (if (!false && decide (d.entry.path ∈ p.variantPaths m dims)) then none else some d) =
        some c ↔ _
      by_cases hpath : d.entry.path ∈ p.variantPaths m dims
      · simp only [hpath, Resolution.kept.injEq]
        grind
      · simp only [hpath, Resolution.kept.injEq]
        grind

theorem resolveFrom_of_untargeted (h : ∀ d, c.targeting.get? d = none) (isVariant : Bool)
    (choices : List VariantChoice) : c.resolveFrom isVariant choices = .kept c isVariant := by
  induction choices with
  | nil => rfl
  | cons r rs ih => rw [Candidate.resolveFrom, h, ih]

/-- A fallback remains unless an entry of a chosen variant ends up at its path. -/
theorem mem_selected_of_fallback (hc : c ∈ p.offered m dims) (h : c.targeting = .master)
    (hpath : c.entry.path ∉ p.variantPaths m dims) : c ∈ p.selected m dims := by
  have hnone (d : Dimension) : c.targeting.get? d = none := by rw [h, Targeting.get?_master]
  exact mem_selected.2 ⟨c, hc, false, resolveFrom_of_untargeted hnone _ _, .inr hpath⟩

/-! ### Destinations -/

/-- An entry is for the packages with a targeting: its resource is pinned, or it has no value along
the dimensions, or its value along the first of them along which it has one is the one that the
targeting names there. -/
def Contributes (p : Policy) (m : BundleModule) (dims : SortedSet Dimension) (t : Targeting)
    (c : Candidate) : Prop :=
  p.pinsPath m c.entry.path ∨ (∀ d ∈ dims, c.targeting.get? d = none) ∨
    ∃ d ∈ dims, (∀ e ∈ dims, e.rank < d.rank → c.targeting.get? e = none) ∧
      (c.targeting.get? d).isSome ∧ c.targeting.get? d = t.get? d

instance (p : Policy) (m : BundleModule) (dims : SortedSet Dimension) (t : Targeting)
    (c : Candidate) : Decidable (p.Contributes m dims t c) :=
  inferInstanceAs (Decidable (_ ∨ (∀ d ∈ dims.toList, c.targeting.get? d = none) ∨
    ∃ d ∈ dims.toList, (∀ e ∈ dims.toList, e.rank < d.rank → c.targeting.get? e = none) ∧
      (c.targeting.get? d).isSome ∧ c.targeting.get? d = t.get? d))

/-- The first member of an ascending list that has a value is the one in front of which none has. -/
theorem findSome?_eq_some_iff_least {f : Dimension → Option Value} :
    dims.toList.findSome? f = some v ↔
      ∃ d ∈ dims, (∀ e ∈ dims, e.rank < d.rank → f e = none) ∧ f d = some v := by
  have hless {d e : Dimension} : compare d e = .lt ↔ d.rank < e.rank := Nat.compare_eq_lt
  rw [List.findSome?_eq_some_iff]
  constructor
  · rintro ⟨front, d, rest, hsplit, hd, hfront⟩
    have hasc := dims.ascending
    rw [hsplit, Ascending, List.pairwise_append, List.pairwise_cons] at hasc
    refine ⟨d, SortedSet.mem_def.2 (by simp [hsplit]), fun e he hlt => ?_, hd⟩
    rw [SortedSet.mem_def, hsplit, List.mem_append, List.mem_cons] at he
    rcases he with he | rfl | he
    · exact hfront e he
    · exact absurd hlt (Nat.lt_irrefl _)
    · exact absurd hlt (Nat.lt_asymm (hless.1 (hasc.2.1.1 e he)))
  · rintro ⟨d, hd, hfirst, hvalue⟩
    obtain ⟨front, rest, hsplit⟩ := List.append_of_mem (SortedSet.mem_def.1 hd)
    have hasc := dims.ascending
    rw [hsplit, Ascending, List.pairwise_append] at hasc
    refine ⟨front, d, rest, hsplit, hvalue, fun e he => ?_⟩
    exact hfirst e (SortedSet.mem_def.2 (by simp [hsplit, he]))
      (hless.1 (hasc.2.2 e he d List.mem_cons_self))

theorem value?_destination_eq_some : (p.destination m dims c).value? = some v ↔
    ¬ p.pinsPath m c.entry.path ∧
      ∃ d ∈ dims, (∀ e ∈ dims, e.rank < d.rank → c.targeting.get? e = none) ∧
        c.targeting.get? d = some v := by
  rw [← findSome?_eq_some_iff_least]
  unfold destination
  split
  · next hpin => simp [Destination.value?, hpin]
  · next hpin =>
    cases dims.toList.findSome? c.targeting.get? with
    | none => simp [Destination.value?]
    | some w => simp [Destination.value?, hpin]

/-- An entry goes to the master fragment or to a value that the targeting names just when it is for
the packages with this targeting. -/
theorem forall_value?_iff_contributes {t : Targeting} :
    (∀ v, (p.destination m dims c).value? = some v → t.get? v.dimension = some v) ↔
      p.Contributes m dims t c := by
  simp only [value?_destination_eq_some]
  constructor
  · intro h
    by_cases hpin : p.pinsPath m c.entry.path
    · exact .inl hpin
    · cases hfirst : dims.toList.findSome? c.targeting.get? with
      | none => exact .inr (.inl (List.findSome?_eq_none_iff.1 hfirst))
      | some v =>
        obtain ⟨d, hd, hfront, hvalue⟩ := findSome?_eq_some_iff_least.1 hfirst
        have hnamed := h v ⟨hpin, d, hd, hfront, hvalue⟩
        rw [Targeting.dimension_of_get? hvalue] at hnamed
        refine .inr (.inr ⟨d, hd, hfront, ?_, ?_⟩)
        · rw [hvalue]
          rfl
        · rw [hvalue, hnamed]
  · rintro h v ⟨hpin, d, hd, hfront, hvalue⟩
    rcases h with hpinned | hnone | ⟨e, he, hfrontE, hsome, hnamed⟩
    · exact absurd hpinned hpin
    · rw [hnone d hd] at hvalue
      cases hvalue
    · -- both are the first dimension with a value
      have hrank : d.rank = e.rank := by
        rcases Nat.lt_trichotomy d.rank e.rank with hlt | heq | hlt
        · rw [hfrontE d hd hlt] at hvalue
          cases hvalue
        · exact heq
        · rw [hfront e he hlt] at hsome
          cases hsome
      obtain rfl := Dimension.eq_of_rank_eq hrank
      rw [Targeting.dimension_of_get? hvalue, ← hnamed, hvalue]

end Policy
end BundlePackaging
