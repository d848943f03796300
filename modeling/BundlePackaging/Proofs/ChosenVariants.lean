import BundlePackaging.Proofs.DirectorySuffix
import BundlePackaging.Proofs.Selection

/-!
# The chosen variants

What variant selection makes of a candidate, without the pass through the choices: it stays if all
its values along the dimensions with stripped suffixes are the default ones, unless it has no such
value and a variant that stays ends up at its path.  A candidate that stays has lost its values along
these dimensions, and their suffixes, in whatever order they are stripped.

## Main definitions

* `Policy.strippedDimensions` — the dimensions along which one variant is chosen.
* `Policy.chooses`, `Policy.isVariant` — a candidate has default values only, or some value at all.
* `Policy.settled` — what becomes of a candidate that stays.
* `Policy.keeps` — whether a candidate stays among others.

## Main results

* `Policy.variantChoices_eq` — the choices of a policy.
* `Policy.resolve_eq_kept` — what the choices make of a candidate with default values.
* `Policy.selectVariants_eq` — selection keeps some candidates, in their order, and settles them.
* `Policy.selectVariants_spec` — **which candidates stay, and as what.**
-/

namespace BundlePackaging

variable {p : Policy} {c : Candidate} {cs : List Candidate} {d : Dimension} {q : EntryPath}

/-- The path without the suffixes that name values of a dimension, if suffixes can. -/
def EntryPath.withoutSuffixesOf (q : EntryPath) (d : Dimension) : EntryPath :=
  d.suffixKey?.elim q q.withoutSuffix

/-- No key of directory suffixes has a `#`, so the suffixes of dimensions can be stripped in any
order. -/
theorem EntryPath.withoutSuffixesOf_comm (q : EntryPath) (d e : Dimension) :
    (q.withoutSuffixesOf d).withoutSuffixesOf e = (q.withoutSuffixesOf e).withoutSuffixesOf d := by
  unfold withoutSuffixesOf
  cases hd : d.suffixKey? with
  | none => rfl
  | some key =>
    cases he : e.suffixKey? with
    | none => rfl
    | some key' =>
      exact withoutSuffix_comm (Dimension.hash_notMem_of_suffixKey? hd)
        (Dimension.hash_notMem_of_suffixKey? he) q

/-- Of each component but the last of a path, what is kept is the part in front of the first place
where the suffix of a dimension begins. -/
theorem EntryPath.firstCut_withoutSuffixesOf (q : EntryPath) (d : Dimension) :
    (d.suffixKey? = none → q.withoutSuffixesOf d = q) ∧
    ∀ key, d.suffixKey? = some key →
      ((q.withoutSuffixesOf d).chars.splitOn '/').getLast? = (q.chars.splitOn '/').getLast? ∧
      List.Forall₂ (FirstCut (suffixMarker key)) (q.chars.splitOn '/').dropLast
        ((q.withoutSuffixesOf d).chars.splitOn '/').dropLast := by
  unfold withoutSuffixesOf
  refine ⟨?_, ?_⟩
  · intro h
    rw [h]
    rfl
  · intro key h
    rw [h]
    exact firstCut_withoutSuffix q key

/-- What is read off the members of a kind alone is read off those of this kind. -/
theorem filterMap_ite_eq_map_filter {α β : Type} (p : α → Bool) (g : α → β) (l : List α) :
    (l.filterMap fun a => if p a then some (g a) else none) = (l.filter p).map g := by
  rw [← List.filterMap_eq_map, List.filterMap_filter]
  rfl

theorem Candidate.ext_get? {b c : Candidate} (hentry : b.entry = c.entry)
    (htargeting : ∀ d, b.targeting.get? d = c.targeting.get? d) : b = c := by
  have hsame := Targeting.ext_get? htargeting
  cases b
  cases c
  congr

/-- The choices keep a candidate just when it has no value but those that they choose. -/
theorem Candidate.exists_resolveFrom_eq_kept_iff {choices : List VariantChoice}
    (hdistinct : (choices.map (·.dimension)).Nodup) (c : Candidate) (isVariant : Bool) :
    (∃ b stripped, c.resolveFrom isVariant choices = .kept b stripped) ↔
      ∀ r ∈ choices, ∀ v, c.targeting.get? r.dimension = some v → r.chosen = some v.name := by
  induction choices generalizing c isVariant with
  | nil => simp [resolveFrom]
  | cons r rs ih =>
    rw [List.map_cons, List.nodup_cons] at hdistinct
    obtain ⟨hfresh, hdistinct⟩ := hdistinct
    rw [List.forall_mem_cons, resolveFrom]
    cases hv : c.targeting.get? r.dimension with
    | none =>
      simp only [reduceCtorEq, false_implies, implies_true, true_and]
      exact ih hdistinct c isVariant
    | some v =>
      -- along the dimensions of the later choices the candidate keeps its values
      have hsame : ∀ r' ∈ rs, (c.strip r).targeting.get? r'.dimension =
          c.targeting.get? r'.dimension := by
        intro r' hr'
        rw [strip, Targeting.get?_erase, if_neg]
        intro heq
        exact hfresh (List.mem_map.2 ⟨r', hr', heq.symm⟩)
      by_cases hchosen : r.chosen = some v.name
      · simp only [if_pos hchosen, ih hdistinct]
        constructor
        · intro h
          refine ⟨?_, ?_⟩
          · rintro w ⟨rfl⟩
            exact hchosen
          · intro r' hr'
            rw [← hsame r' hr']
            exact h r' hr'
        · rintro ⟨-, h⟩ r' hr'
          rw [hsame r' hr']
          exact h r' hr'
      · simp [hchosen]

namespace Policy

/-! ### Choices -/

/-- The dimensions along which one variant is chosen. -/
def strippedDimensions (p : Policy) : List Dimension :=
  [.textureFormat, .deviceTier].filter p.stripsSuffix

/-- The suffix value of the chosen variant. -/
def defaultSuffix? (p : Policy) (d : Dimension) : Option String :=
  (p.suffixPolicy? d).bind (·.defaultSuffix)

/-- The choices of a policy are along the dimensions with stripped suffixes. -/
theorem variantChoices_eq (p : Policy) : p.variantChoices =
    p.strippedDimensions.map fun d => ⟨d, d.suffixKey?.getD "", p.defaultSuffix? d⟩ := by
  have hchoice : ∀ d, (do
      let rule ← p.suffixPolicy? d
      let key ← d.suffixKey?
      if rule.enabled then some (VariantChoice.mk d key rule.defaultSuffix) else none) =
      if d.suffixKey?.isSome && p.stripsSuffix d then
        some ⟨d, d.suffixKey?.getD "", p.defaultSuffix? d⟩ else none := by
    intro d
    unfold stripsSuffix defaultSuffix?
    cases p.suffixPolicy? d with
    | none => simp
    | some rule =>
      cases d.suffixKey? with
      | none => rfl
      | some key => simp
  have hkeys : Dimension.all.filter (·.suffixKey?.isSome) = [.textureFormat, .deviceTier] := rfl
  unfold variantChoices strippedDimensions
  simp only [hchoice]
  rw [filterMap_ite_eq_map_filter, ← hkeys, List.filter_filter]
  simp only [Bool.and_comm]

theorem map_dimension_variantChoices (p : Policy) :
    p.variantChoices.map (·.dimension) = p.strippedDimensions := by
  rw [variantChoices_eq, List.map_map]
  exact List.map_id' _

/-- Policies that agree on textures and tiers make the same choices. -/
theorem variantChoices_congr {p' : Policy}
    (h : ∀ d ∈ [.textureFormat, .deviceTier], p'.suffixPolicy? d = p.suffixPolicy? d) :
    p'.variantChoices = p.variantChoices := by
  have hstripped : p'.strippedDimensions = p.strippedDimensions := by
    apply List.filter_congr
    intro d hd
    unfold stripsSuffix
    rw [h d hd]
  rw [variantChoices_eq, variantChoices_eq, hstripped]
  apply List.map_congr_left
  intro d hd
  unfold defaultSuffix?
  rw [h d (List.mem_of_mem_filter hd)]

/-! ### What becomes of a candidate -/

/-- All values along the dimensions with stripped suffixes are the default ones. -/
def chooses (p : Policy) (c : Candidate) : Bool :=
  p.strippedDimensions.all fun d => (c.targeting.get? d).all fun v => p.defaultSuffix? d = some v.name

/-- There is a value along a dimension with stripped suffixes. -/
def isVariant (p : Policy) (c : Candidate) : Bool :=
  p.strippedDimensions.any fun d => (c.targeting.get? d).isSome

/-- The dimensions with stripped suffixes along which a candidate has a value. -/
def movedAlong (p : Policy) (c : Candidate) : List Dimension :=
  p.strippedDimensions.filter fun d => (c.targeting.get? d).isSome

/-- A candidate that stays: without values along the dimensions with stripped suffixes, and at the
path without the suffixes of those along which it had one. -/
def settled (p : Policy) (c : Candidate) : Candidate :=
  ⟨c.entry.moveTo ((p.movedAlong c).foldl EntryPath.withoutSuffixesOf c.entry.path),
    p.strippedDimensions.foldl Targeting.erase c.targeting⟩

theorem chooses_iff : p.chooses c ↔ ∀ d ∈ p.strippedDimensions, ∀ v,
    c.targeting.get? d = some v → p.defaultSuffix? d = some v.name := by
  unfold chooses
  simp only [List.all_eq_true, Option.all_eq_true, decide_eq_true_eq]

theorem isVariant_iff : p.isVariant c ↔
    ∃ d ∈ p.strippedDimensions, c.targeting.get? d ≠ none := by
  unfold isVariant
  simp only [List.any_eq_true, Option.isSome_iff_ne_none]

theorem get?_settled (p : Policy) (c : Candidate) (d : Dimension) :
    (p.settled c).targeting.get? d =
      if d ∈ p.strippedDimensions then none else c.targeting.get? d := by
  have herase : ∀ (ds : List Dimension) (t : Targeting),
      (ds.foldl Targeting.erase t).get? d = if d ∈ ds then none else t.get? d := by
    intro ds
    induction ds with
    | nil =>
      intro t
      rfl
    | cons e ds ih =>
      intro t
      rw [List.foldl_cons, ih, Targeting.get?_erase]
      grind
  exact herase _ _

/-- The suffixes are stripped in any order. -/
theorem path_settled {ds : List Dimension} (h : ds.Perm (p.movedAlong c)) :
    (p.settled c).entry.path = ds.foldl EntryPath.withoutSuffixesOf c.entry.path :=
  h.symm.foldl_eq' (fun d _ e _ q => q.withoutSuffixesOf_comm d e) _

/-- A path loses the suffixes of the choices about a candidate. -/
theorem strippedPath_variantChoices (p : Policy) (c : Candidate) :
    c.strippedPath p.variantChoices = (p.settled c).entry.path := by
  have hkeys : ∀ d ∈ p.movedAlong c, ∀ q : EntryPath,
      q.withoutSuffix (d.suffixKey?.getD "") = q.withoutSuffixesOf d := by
    intro d hd q
    have hd : d ∈ [.textureFormat, .deviceTier] :=
      List.mem_of_mem_filter (List.mem_of_mem_filter hd)
    have hkey : ∀ d ∈ [Dimension.textureFormat, .deviceTier], d.suffixKey?.isSome := by decide
    obtain ⟨key, hkey⟩ := Option.isSome_iff_exists.1 (hkey d hd)
    unfold EntryPath.withoutSuffixesOf
    rw [hkey]
    rfl
  unfold Candidate.strippedPath
  rw [variantChoices_eq, List.filter_map, List.foldl_map]
  exact List.foldl_ext _ _ _ fun q d hd => hkeys d hd q

/-- What the choices make of a candidate: with default values it is settled, with another value it
is dropped. -/
theorem resolve_cases (p : Policy) (c : Candidate) :
    (p.chooses c ∧ c.resolve p.variantChoices = .kept (p.settled c) (p.isVariant c)) ∨
    (p.chooses c = false ∧ ∃ path v, c.resolve p.variantChoices = .dropped path v) := by
  have hkept := c.exists_resolveFrom_eq_kept_iff (nodup_dimensions_variantChoices (p := p)) false
  rw [p.variantChoices_eq, List.forall_mem_map, ← chooses_iff, ← variantChoices_eq] at hkept
  cases hresolve : c.resolve p.variantChoices with
  | dropped path v =>
    refine .inr ⟨?_, path, v, rfl⟩
    rw [Bool.eq_false_iff]
    intro hchooses
    obtain ⟨b, stripped, hb⟩ := hkept.2 hchooses
    have hsame := hresolve.symm.trans hb
    cases hsame
  | kept b stripped =>
    obtain ⟨htargeting, hentry, hstripped⟩ :=
      Candidate.of_resolveFrom_eq_kept nodup_dimensions_variantChoices hresolve
    have hb : b = p.settled c := by
      apply Candidate.ext_get?
      · rw [hentry, strippedPath_variantChoices]
        rfl
      · intro d
        rw [htargeting, map_dimension_variantChoices, get?_settled]
    have hstripped : stripped = p.isVariant c := by
      rw [hstripped, Bool.false_or, variantChoices_eq, List.any_map]
      rfl
    rw [hb, hstripped]
    exact .inl ⟨hkept.1 ⟨b, stripped, hresolve⟩, rfl⟩

/-! ### Selection -/

/-- A candidate stays among others: it has default values only, and if it has none at all, no variant
that stays ends up at its path. -/
def keeps (p : Policy) (cs : List Candidate) (c : Candidate) : Bool :=
  p.chooses c && (p.isVariant c || !cs.any fun b =>
    p.chooses b && p.isVariant b && (p.settled b).entry.path = c.entry.path)

/-- The path of a candidate without values along dimensions with stripped suffixes stays. -/
theorem path_settled_of_not_isVariant (h : p.isVariant c = false) :
    (p.settled c).entry.path = c.entry.path := by
  have hnone : p.movedAlong c = [] := by
    unfold isVariant at h
    rw [List.any_eq_false] at h
    exact List.filter_eq_nil_iff.2 h
  unfold settled
  rw [hnone]
  rfl

/-- The paths of the variants that stay. -/
theorem mem_variantPaths_iff :
    q ∈ (cs.map (Candidate.resolve p.variantChoices)).filterMap Resolution.variantPath? ↔
      ∃ b ∈ cs, p.chooses b ∧ p.isVariant b ∧ (p.settled b).entry.path = q := by
  rw [List.filterMap_map, List.mem_filterMap]
  apply exists_congr
  intro b
  apply and_congr_right'
  rw [Function.comp_apply]
  rcases p.resolve_cases b with ⟨hchooses, hkept⟩ | ⟨hchooses, path, v, hdropped⟩
  · rw [hkept]
    cases hvariant : p.isVariant b with
    | true => simp [Resolution.variantPath?, hchooses]
    | false => simp [Resolution.variantPath?]
  · rw [hdropped]
    simp [Resolution.variantPath?, hchooses]

/-- Selection keeps some candidates, in their order, and settles them. -/
theorem selectVariants_eq (p : Policy) (cs : List Candidate) :
    selectVariants p.variantChoices cs = (cs.filter (p.keeps cs)).map p.settled := by
  rw [← filterMap_ite_eq_map_filter]
  unfold selectVariants
  dsimp only
  rw [List.filterMap_map]
  apply List.filterMap_congr
  intro c _
  rw [Function.comp_apply]
  have hreplaced : p.isVariant c = false → ((p.settled c).entry.path ∈
      (cs.map (Candidate.resolve p.variantChoices)).filterMap Resolution.variantPath? ↔
        cs.any fun b => p.chooses b && p.isVariant b && (p.settled b).entry.path = c.entry.path) := by
    intro hvariant
    rw [mem_variantPaths_iff, path_settled_of_not_isVariant hvariant]
    simp [and_assoc]
  unfold keeps
  rcases p.resolve_cases c with ⟨hchooses, hkept⟩ | ⟨hchooses, path, v, hdropped⟩
  · rw [hkept]
    cases hvariant : p.isVariant c with
    | true => simp [Resolution.survivor?, hchooses]
    | false =>
      simp only [Resolution.survivor?, Bool.not_false, Bool.true_and, decide_eq_true_eq,
        hreplaced hvariant, hchooses, Bool.false_or]
      cases cs.any fun b =>
        p.chooses b && p.isVariant b && (p.settled b).entry.path = c.entry.path with
      | true => rfl
      | false => rfl
  · rw [hdropped]
    simp [Resolution.survivor?, hchooses]

/-- Whether a candidate stays depends on the variants that stay. -/
theorem keeps_iff : p.keeps cs c ↔ p.chooses c ∧ ¬ (p.isVariant c = false ∧
    ∃ b ∈ cs, p.keeps cs b ∧ p.isVariant b ∧ (p.settled b).entry.path = c.entry.path) := by
  have hvariant : ∀ b, p.isVariant b → (p.keeps cs b ↔ p.chooses b) := by
    intro b hb
    simp [keeps, hb]
  have hvariants : (∃ b ∈ cs, p.keeps cs b ∧ p.isVariant b ∧
      (p.settled b).entry.path = c.entry.path) ↔
      ∃ b ∈ cs, p.chooses b ∧ p.isVariant b ∧ (p.settled b).entry.path = c.entry.path := by
    apply exists_congr
    intro b
    apply and_congr_right'
    rw [← and_assoc, ← and_assoc]
    apply and_congr_left'
    exact and_congr_left (hvariant b)
  rw [hvariants]
  unfold keeps
  cases p.isVariant c with
  | true => simp
  | false => simp [and_assoc]

/-- Variant selection: a candidate stays if along each dimension with stripped suffixes along which
it has a value this is the default one, unless it has no such value and a candidate with one stays
and ends up at its path.  Those that stay keep their order; each keeps its content, its compression
and its values along the other dimensions, and loses its values along the dimensions with stripped
suffixes, and from its path the suffixes of those along which it had one, in any order.  To lose the
suffixes of a dimension, a path keeps its last component, and of every other one the part in front of
the first place where such a suffix begins.  Policies that agree on textures and tiers select
alike. -/
theorem selectVariants_spec (p : Policy) (cs : List Candidate) :
    selectVariants p.variantChoices cs = (cs.filter (p.keeps cs)).map p.settled ∧
    (∀ c, p.keeps cs c ↔
      (∀ d ∈ p.strippedDimensions, ∀ v, c.targeting.get? d = some v →
        p.defaultSuffix? d = some v.name) ∧
      ¬ ((∀ d ∈ p.strippedDimensions, c.targeting.get? d = none) ∧
        ∃ b ∈ cs, p.keeps cs b ∧ (∃ d ∈ p.strippedDimensions, b.targeting.get? d ≠ none) ∧
          (p.settled b).entry.path = c.entry.path)) ∧
    (∀ c, (p.settled c).entry.content = c.entry.content ∧
      (p.settled c).entry.compression = c.entry.compression ∧
      (∀ d ∈ p.strippedDimensions, (p.settled c).targeting.get? d = none) ∧
      (∀ d ∉ p.strippedDimensions, (p.settled c).targeting.get? d = c.targeting.get? d) ∧
      ∀ ds : List Dimension,
        ds.Perm (p.strippedDimensions.filter fun d => c.targeting.get? d ≠ none) →
          (p.settled c).entry.path = ds.foldl EntryPath.withoutSuffixesOf c.entry.path) ∧
    (∀ (q : EntryPath) (d : Dimension), (d.suffixKey? = none → q.withoutSuffixesOf d = q) ∧
      ∀ key, d.suffixKey? = some key →
        ((q.withoutSuffixesOf d).chars.splitOn '/').getLast? = (q.chars.splitOn '/').getLast? ∧
        List.Forall₂ (FirstCut (EntryPath.suffixMarker key)) (q.chars.splitOn '/').dropLast
          ((q.withoutSuffixesOf d).chars.splitOn '/').dropLast) ∧
    ∀ p' : Policy, (∀ d ∈ [.textureFormat, .deviceTier], p'.suffixPolicy? d = p.suffixPolicy? d) →
      selectVariants p'.variantChoices cs = selectVariants p.variantChoices cs := by
  refine ⟨selectVariants_eq p cs, ?kept, ?settled, EntryPath.firstCut_withoutSuffixesOf, ?others⟩
  case kept =>
    intro c
    have hnone : p.isVariant c = false ↔ ∀ d ∈ p.strippedDimensions, c.targeting.get? d = none := by
      rw [Bool.eq_false_iff, Ne, isVariant_iff]
      simp
    rw [keeps_iff, chooses_iff, hnone]
    simp only [isVariant_iff]
  case settled =>
    intro c
    refine ⟨rfl, rfl, ?_, ?_, ?_⟩
    · intro d hd
      rw [get?_settled, if_pos hd]
    · intro d hd
      rw [get?_settled, if_neg hd]
    · intro ds hds
      apply path_settled
      apply hds.trans
      apply List.Perm.of_eq
      apply List.filter_congr
      intro d _
      cases c.targeting.get? d with
      | none => rfl
      | some v => rfl
  case others =>
    intro p' h
    rw [variantChoices_congr h]

/-- The variants for one texture format and one tier are chosen. -/
def twoSuffixPolicy : Policy :=
  { suffixPolicies := .ofList [(.textureFormat, ⟨true, some "astc"⟩),
      (.deviceTier, ⟨true, some "1"⟩)] }

/-- Of a fallback, a variant for the chosen values and one for another tier only the first variant
stays, at the path of the fallback. -/
example : selectVariants twoSuffixPolicy.variantChoices
    [⟨⟨⟨"a/b/c.bin"⟩, ⟨1, .memory [1]⟩, .compressed⟩, .master⟩,
     ⟨⟨⟨"a#tier_1/b#tcf_astc/c.bin"⟩, ⟨2, .memory [2]⟩, .uncompressed⟩,
      { abi := some .x86, textureFormat := some .astc, deviceTier := some ⟨1⟩ }⟩,
     ⟨⟨⟨"a#tier_0/b#tcf_astc/c.bin"⟩, ⟨3, .memory [3]⟩, .compressed⟩,
      { textureFormat := some .astc, deviceTier := some ⟨0⟩ }⟩] =
    [⟨⟨⟨"a/b/c.bin"⟩, ⟨2, .memory [2]⟩, .uncompressed⟩, .ofValue (.abi .x86)⟩] := by
  decide +kernel

end Policy
end BundlePackaging
