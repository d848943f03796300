import BundlePackaging.Fusion
import BundlePackaging.Proofs.Points
import Mathlib.Data.List.Induction

/-!
# Unions of targetings

A targeting takes in the values of another one by one, as long as it names no other value along
their dimensions.  So targetings can be united just when any two of them agree, and their union
names exactly the values that some of them names.  This is said of the targetings alone: it does not
matter in which order they are united, nor how they are grouped.  What depends on the order is the
pair of values that is reported when two of them do not agree.

## Main definitions

* `Targeting.Agrees` — two targetings name no different values along any dimension.
* `Targeting.Unites` — what uniting some targetings has to end with.
* `Targeting.Grouping` — the ways to unite targetings two at a time.

## Main results

* `Targeting.get?_merge`, `uniteTargetings_get?` — a union names the values that its members name.
* `Targeting.of_merge_eq_error` — of the dimensions along which two targetings differ the first is
  reported.
* `Targeting.Unites.bind_merge` — two unions are united to the union of all members.
* `uniteTargetings_cases` — members can be united just when any two of them agree.
* `Targeting.unite_in_any_order` — **targetings are united alike in every order and grouping.**
-/

namespace BundlePackaging

variable {n : ℕ} {fs : List Fragment}

namespace Targeting

variable {t t' u : Targeting} {vs : List Value}

/-! ### Values -/

theorem get?_addAll (h : t.addAll vs = .ok u) (d : Dimension) (v : Value) :
    u.get? d = some v ↔ t.get? d = some v ∨ v ∈ vs ∧ v.dimension = d := by
  induction vs generalizing t with
  | nil =>
    cases h
    simp
  | cons w vs ih =>
    unfold addAll at h
    cases hw : t.get? w.dimension with
    | none =>
      rw [hw] at h
      rw [ih h, get?_set]
      by_cases hd : w.dimension = d
      · subst hd
        simp only [if_true, hw, List.mem_cons, Option.some.injEq]
        grind
      · simp only [if_neg hd, List.mem_cons]
        grind
    | some x =>
      simp only [hw] at h
      split at h
      · next hx =>
        subst hx
        rw [ih h, List.mem_cons]
        have := fun hv : v = x => hv ▸ hw
        grind
      · cases h

/-- The union of two targetings names exactly the values that one of them names. -/
theorem get?_merge (h : t.merge t' = .ok u) (d : Dimension) (v : Value) :
    u.get? d = some v ↔ t.get? d = some v ∨ t'.get? d = some v := by
  rw [get?_addAll h, mem_values]
  refine or_congr Iff.rfl ⟨?_, fun hv => ?_⟩
  · rintro ⟨hv, rfl⟩
    exact hv
  · obtain rfl := dimension_of_get? hv
    exact ⟨hv, rfl⟩

/-! ### Agreement -/

/-- Along no dimension two different values are named. -/
def Agrees (t t' : Targeting) : Prop :=
  ∀ d v w, t.get? d = some v → t'.get? d = some w → v = w

/-- Values along different dimensions are taken in up to the first that differs from the value named
along its dimension. -/
theorem of_addAll_eq_error {c : TargetingConflict} (hvs : (vs.map (·.dimension)).Nodup)
    (h : t.addAll vs = .error c) :
    ∃ front rest, vs = front ++ c.incoming :: rest ∧
      t.get? c.incoming.dimension = some c.existing ∧ c.existing ≠ c.incoming ∧
      ∀ v ∈ front, ∀ w, t.get? v.dimension = some w → w = v := by
  induction vs generalizing t with
  | nil => cases h
  | cons v vs ih =>
    rw [List.map_cons, List.nodup_cons] at hvs
    obtain ⟨hfresh, hvs⟩ := hvs
    unfold addAll at h
    cases hget : t.get? v.dimension with
    | none =>
      rw [hget] at h
      obtain ⟨front, rest, rfl, hexisting, hne, hfront⟩ := ih hvs h
      -- along the dimensions of the later values nothing has changed
      have hsame : ∀ w ∈ front ++ c.incoming :: rest,
          (t.set v).get? w.dimension = t.get? w.dimension := by
        intro w hw
        rw [get?_set, if_neg]
        intro heq
        exact hfresh (List.mem_map.2 ⟨w, hw, heq.symm⟩)
      refine ⟨v :: front, rest, rfl, ?_, hne, ?_⟩
      · rwa [hsame _ (by simp)] at hexisting
      · refine List.forall_mem_cons.2 ⟨?_, ?_⟩
        · intro w hw
          rw [hget] at hw
          cases hw
        · intro x hx w hw
          rw [← hsame x (by simp [hx])] at hw
          exact hfront x hx w hw
    | some w =>
      simp only [hget] at h
      split at h
      · next heq =>
        obtain ⟨front, rest, rfl, hexisting, hne, hfront⟩ := ih hvs h
        refine ⟨v :: front, rest, rfl, hexisting, hne, List.forall_mem_cons.2 ⟨?_, hfront⟩⟩
        intro x hx
        rw [hget] at hx
        exact (Option.some.inj hx).symm.trans heq
      · next hne =>
        cases h
        exact ⟨[], vs, rfl, hget, hne, by simp⟩

/-- Two targetings cannot be united only if they differ along a dimension.  The values on which they
differ are named, and along no dimension in front do they differ. -/
theorem of_merge_eq_error {c : TargetingConflict} (h : t.merge t' = .error c) :
    t.get? c.incoming.dimension = some c.existing ∧
      t'.get? c.incoming.dimension = some c.incoming ∧ c.existing ≠ c.incoming ∧
      ∀ d v w, t.get? d = some v → t'.get? d = some w → v ≠ w →
        c.incoming.dimension.rank ≤ d.rank := by
  have hordered := t'.byDimension_values
  obtain ⟨front, rest, hsplit, hexisting, hne, hfront⟩ :=
    of_addAll_eq_error hordered.nodup_dimensions h
  have hincoming : c.incoming ∈ t'.values := by
    rw [hsplit]
    simp
  refine ⟨hexisting, mem_values.1 hincoming, hne, ?_⟩
  intro d v w hv hw hvw
  obtain rfl := dimension_of_get? hw
  have hmem := mem_values.2 hw
  rw [hsplit] at hmem hordered
  rcases List.mem_append.1 hmem with hmem | hmem
  · -- a value in front was taken in, so it is the one that was named
    exact absurd (hfront w hmem v hv) hvw
  · rcases List.mem_cons.1 hmem with rfl | hmem
    · exact Nat.le_refl _
    · have htail := List.pairwise_cons.1 (List.pairwise_append.1 hordered).2.1
      exact Nat.le_of_lt (htail.1 w hmem)

/-! ### What uniting ends with -/

/-- Any two of some targetings agree. -/
def Compatible (ts : List Targeting) : Prop := ∀ t ∈ ts, ∀ t' ∈ ts, t.Agrees t'

/-- What uniting some targetings has to end with: a targeting that names exactly the values that
some of them names, or a conflict, which there is only if they do not agree. -/
def Unites (ts : List Targeting) : Except TargetingConflict Targeting → Prop
  | .ok u => ∀ d v, u.get? d = some v ↔ ∃ t ∈ ts, t.get? d = some v
  | .error _ => ¬ Compatible ts

section Unites

variable {ts ts' : List Targeting} {x y : Except TargetingConflict Targeting}

theorem unites_master : Unites [] (.ok master) := by
  intro d v
  simp

theorem unites_single (t : Targeting) : Unites [t] (.ok t) := by
  intro d v
  simp

theorem Unites.congr (h : Unites ts x) (hmem : ∀ t, t ∈ ts ↔ t ∈ ts') : Unites ts' x := by
  cases x with
  | ok u =>
    intro d v
    rw [h d v]
    simp only [hmem]
  | error c =>
    intro hcompatible
    exact h fun t ht t' ht' => hcompatible t ((hmem t).1 ht) t' ((hmem t').1 ht')

/-- Members of a union agree. -/
theorem Unites.compatible (h : Unites ts (.ok u)) : Compatible ts := by
  intro t ht t' ht' d v w hv hw
  have hleft := (h d v).2 ⟨t, ht, hv⟩
  have hright := (h d w).2 ⟨t', ht', hw⟩
  rw [hleft] at hright
  exact Option.some.inj hright

theorem Unites.exists_eq_ok_iff (h : Unites ts x) : (∃ u, x = .ok u) ↔ Compatible ts := by
  cases x with
  | ok u => exact ⟨fun _ => h.compatible, fun _ => ⟨u, rfl⟩⟩
  | error c =>
    refine ⟨?_, fun hcompatible => absurd hcompatible h⟩
    rintro ⟨u, hu⟩
    cases hu

/-- The members determine their union, and whether there is one. -/
theorem Unites.alike (h : Unites ts x) (h' : Unites ts y) :
    (∃ u, x = .ok u ∧ y = .ok u) ∨ ∃ c c', x = .error c ∧ y = .error c' := by
  cases x with
  | ok u =>
    obtain ⟨u', rfl⟩ := h'.exists_eq_ok_iff.2 h.compatible
    have hsame : u = u' := by
      apply ext_get?
      intro d
      apply Option.ext
      intro v
      rw [h d v, h' d v]
    exact .inl ⟨u, rfl, by rw [hsame]⟩
  | error c =>
    cases y with
    | ok u' => exact absurd (Unites.compatible h') h
    | error c' => exact .inr ⟨c, c', rfl, rfl⟩

/-- Two unions are united to the union of all members. -/
theorem Unites.bind_merge (h : Unites ts x) (h' : Unites ts' y) :
    Unites (ts ++ ts') (x >>= fun u => y >>= fun u' => u.merge u') := by
  have hleft : Compatible (ts ++ ts') → Compatible ts := fun hall t ht t' ht' =>
    hall t (List.mem_append_left _ ht) t' (List.mem_append_left _ ht')
  have hright : Compatible (ts ++ ts') → Compatible ts' := fun hall t ht t' ht' =>
    hall t (List.mem_append_right _ ht) t' (List.mem_append_right _ ht')
  cases x with
  | error c => exact fun hall => h (hleft hall)
  | ok u =>
    cases y with
    | error c => exact fun hall => h' (hright hall)
    | ok u' =>
      change Unites (ts ++ ts') (u.merge u')
      cases hmerge : u.merge u' with
      | ok w =>
        intro d v
        rw [get?_merge hmerge, h d v, h' d v]
        simp only [List.mem_append, or_and_right, exists_or]
      | error c =>
        intro hall
        obtain ⟨hexisting, hincoming, hne, -⟩ := of_merge_eq_error hmerge
        -- each of the two values is that of some member
        obtain ⟨t, ht, hget⟩ := (h _ _).1 hexisting
        obtain ⟨t', ht', hget'⟩ := (h' _ _).1 hincoming
        exact hne (hall t (List.mem_append_left _ ht) t' (List.mem_append_right _ ht') _ _ _
          hget hget')

/-! ### Orders and groupings -/

/-- Targetings are united one after the other. -/
theorem unites_foldlM (ts : List Targeting) : Unites ts (ts.foldlM merge master) := by
  induction ts using List.reverseRecOn with
  | nil => exact unites_master
  | append_singleton ts t ih =>
    simp only [List.foldlM_append, List.foldlM_cons, List.foldlM_nil, bind_pure]
    exact ih.bind_merge (unites_single t)

/-- A way to unite targetings two at a time. -/
inductive Grouping where
  /-- No targeting. -/
  | none
  /-- One targeting. -/
  | single (t : Targeting)
  /-- The targetings of two groups, each united first. -/
  | pair (left right : Grouping)

namespace Grouping

/-- The targetings that are united, from left to right. -/
def members : Grouping → List Targeting
  | none => []
  | single t => [t]
  | pair left right => left.members ++ right.members

/-- What uniting ends with. -/
def union : Grouping → Except TargetingConflict Targeting
  | none => .ok master
  | single t => .ok t
  | pair left right => do
    let u ← left.union
    let u' ← right.union
    u.merge u'

theorem unites (g : Grouping) : Unites g.members g.union := by
  induction g with
  | none => exact unites_master
  | single t => exact unites_single t
  | pair left right ihl ihr => exact ihl.bind_merge ihr

end Grouping

end Unites

/-- Targetings that are united one after the other are taken in up to the first that differs from
the union of those before it. -/
theorem of_foldlM_merge_eq_error {ts : List Targeting} {c : TargetingConflict}
    (h : ts.foldlM merge t = .error c) :
    ∃ front t' rest u, ts = front ++ t' :: rest ∧ front.foldlM merge t = .ok u ∧
      u.merge t' = .error c := by
  induction ts generalizing t with
  | nil => cases h
  | cons t' ts ih =>
    rw [List.foldlM_cons] at h
    cases hmerge : t.merge t' with
    | ok v =>
      rw [hmerge] at h
      obtain ⟨front, t'', rest, u, rfl, hu, hc⟩ := ih h
      refine ⟨t' :: front, t'', rest, u, rfl, ?_, hc⟩
      rw [List.foldlM_cons, hmerge]
      exact hu
    | error c' =>
      rw [hmerge] at h
      cases h
      exact ⟨[], t', ts, t, rfl, rfl, hmerge⟩

end Targeting

/-! ### Fragments -/

/-- The targetings of fragments are united one after the other, and a conflict is reported with the
module of the fragment that was to be united. -/
theorem uniteTargetings_eq (n : ℕ) (t : Targeting) (fs : List Fragment) :
    (∃ u, (fs.map (·.targeting)).foldlM Targeting.merge t = .ok u ∧
      uniteTargetings n t fs = .ok u) ∨
    ∃ front f rest u c, fs = front ++ f :: rest ∧ uniteTargetings n t front = .ok u ∧
      u.merge f.targeting = .error c ∧
      (fs.map (·.targeting)).foldlM Targeting.merge t = .error c ∧
      uniteTargetings n t fs = .error (.conflictingTargeting c.existing.dimension n f.module
        c.existing.name c.incoming.name) := by
  induction fs generalizing t with
  | nil => exact .inl ⟨t, rfl, rfl⟩
  | cons f fs ih =>
    rw [List.map_cons, List.foldlM_cons, uniteTargetings]
    cases hmerge : t.merge f.targeting with
    | ok v =>
      rcases ih v with hok | ⟨front, g, rest, u, c, rfl, hu, hc, hfold, herror⟩
      · exact .inl hok
      · refine .inr ⟨f :: front, g, rest, u, c, rfl, ?_, hc, hfold, herror⟩
        rw [uniteTargetings, hmerge]
        exact hu
    | error c => exact .inr ⟨[], f, fs, t, c, rfl, rfl, hmerge, rfl, rfl⟩

/-- A united targeting names exactly the values that its members name. -/
theorem uniteTargetings_get? {u : Targeting} (h : uniteTargetings n .master fs = .ok u)
    (d : Dimension) (v : Value) :
    u.get? d = some v ↔ ∃ f ∈ fs, f.targeting.get? d = some v := by
  rcases uniteTargetings_eq n .master fs with
    ⟨u', hfold, hok⟩ | ⟨front, f, rest, u', c, -, -, -, -, herror⟩
  · rw [h] at hok
    obtain rfl := Except.ok.inj hok
    have hunites := Targeting.unites_foldlM (fs.map (·.targeting))
    rw [hfold] at hunites
    rw [hunites d v]
    simp only [List.mem_map, exists_exists_and_eq_and]
  · rw [h] at herror
    cases herror

/-- Fragments can be united to one targeting just when any two of their targetings agree. -/
theorem uniteTargetings_cases (n : ℕ) (fs : List Fragment) :
    ((∀ f ∈ fs, ∀ g ∈ fs, f.targeting.Agrees g.targeting) ∧
      ∃ u, uniteTargetings n .master fs = .ok u) ∨
    ((¬ ∀ f ∈ fs, ∀ g ∈ fs, f.targeting.Agrees g.targeting) ∧
      ∃ d module first second, uniteTargetings n .master fs =
        .error (.conflictingTargeting d n module first second)) := by
  have hcompatible : Targeting.Compatible (fs.map (·.targeting)) ↔
      ∀ f ∈ fs, ∀ g ∈ fs, f.targeting.Agrees g.targeting := by
    simp only [Targeting.Compatible, List.forall_mem_map]
  have hunites := Targeting.unites_foldlM (fs.map (·.targeting))
  rw [← hcompatible]
  rcases uniteTargetings_eq n .master fs with
    ⟨u, hfold, hok⟩ | ⟨front, f, rest, u, c, -, -, -, hfold, herror⟩
  · rw [hfold] at hunites
    exact .inl ⟨hunites.compatible, u, hok⟩
  · rw [hfold] at hunites
    exact .inr ⟨hunites, _, _, _, _, herror⟩

/-! ### Any order -/

/-- Targetings that are merged one after the other can be united just when no two of them name
different values along a dimension, and then the union names exactly the values that some of them
names.  In every other order, and grouped in whatever way, they have the same union, or have none
either.  If there is none, the pair reported are two different values along one dimension, the first
named by an earlier member and the second by the member that was to be merged, and it is the first
dimension along which that member differs from the union of those before it.  Merging fragments
unites their targetings in this way, and reports the pair with the module of that member. -/
theorem Targeting.unite_in_any_order (ts : List Targeting) :
    let union := ts.foldlM Targeting.merge .master
    ((∃ u, union = .ok u) ↔ ¬ ∃ t ∈ ts, ∃ t' ∈ ts, ∃ d v w,
      t.get? d = some v ∧ t'.get? d = some w ∧ v ≠ w) ∧
    (∀ u, union = .ok u → ∀ d v, u.get? d = some v ↔ ∃ t ∈ ts, t.get? d = some v) ∧
    (∀ ts' : List Targeting, ts'.Perm ts →
      let other := ts'.foldlM Targeting.merge .master
      (∃ u, union = .ok u ∧ other = .ok u) ∨ ∃ c c', union = .error c ∧ other = .error c') ∧
    (∀ g : Grouping, g.members.Perm ts →
      (∃ u, union = .ok u ∧ g.union = .ok u) ∨ ∃ c c', union = .error c ∧ g.union = .error c') ∧
    (∀ c, union = .error c → ∃ front t rest u, ts = front ++ t :: rest ∧
      front.foldlM Targeting.merge .master = .ok u ∧
      let d := c.incoming.dimension
      c.existing.dimension = d ∧ c.existing ≠ c.incoming ∧
      (∃ t' ∈ front, t'.get? d = some c.existing) ∧ u.get? d = some c.existing ∧
      t.get? d = some c.incoming ∧
      ∀ e v w, u.get? e = some v → t.get? e = some w → v ≠ w → d.rank ≤ e.rank) ∧
    ∀ n fs, fs.map Fragment.targeting = ts →
      (∃ u, union = .ok u ∧ uniteTargetings n .master fs = .ok u) ∨
      ∃ front f rest u c, fs = front ++ f :: rest ∧ uniteTargetings n .master front = .ok u ∧
        u.merge f.targeting = .error c ∧ union = .error c ∧
        uniteTargetings n .master fs = .error (.conflictingTargeting c.existing.dimension n f.module
          c.existing.name c.incoming.name) := by
  intro union
  have hunites : Unites ts union := unites_foldlM ts
  refine ⟨?_, ?_, ?_, ?_, ?_, ?_⟩
  · rw [hunites.exists_eq_ok_iff]
    simp only [Compatible, Agrees, not_exists, not_and, not_not]
  · intro u hu
    rwa [hu] at hunites
  · intro ts' hperm
    exact hunites.alike ((unites_foldlM ts').congr fun _ => hperm.mem_iff)
  · intro g hperm
    exact hunites.alike (g.unites.congr fun _ => hperm.mem_iff)
  · intro c hc
    obtain ⟨front, t, rest, u, hsplit, hu, hmerge⟩ := of_foldlM_merge_eq_error hc
    obtain ⟨hexisting, hincoming, hne, hleast⟩ := of_merge_eq_error hmerge
    have hfront := unites_foldlM front
    rw [hu] at hfront
    exact ⟨front, t, rest, u, hsplit, hu, dimension_of_get? hexisting, hne,
      (hfront _ _).1 hexisting, hexisting, hincoming, hleast⟩
  · rintro n fs rfl
    exact uniteTargetings_eq n .master fs

end BundlePackaging
