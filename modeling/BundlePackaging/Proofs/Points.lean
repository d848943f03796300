import BundlePackaging.Proofs.Canonical
import BundlePackaging.Shard
import Mathlib.Algebra.BigOperators.Group.List.Basic
import Mathlib.Data.List.Nodup

/-!
# The points of a list of fragments

A point chooses one member of each axis.  The axes of a list of fragments are the sets of values
that its targeted fragments have along the dimensions that are sharded on, in the order of these,
those without values left out.  So a point has one value along each dimension along which there are
any, and the points come in lexicographic order.

## Main definitions

* `ByDimension` — values along different dimensions, in the order of these.
* `ObservedIn` — a value that some targeted fragment has.
* `IsPoint` — a choice of one observed value along each dimension along which there are any.

## Main results

* `pairwise_lex_points` — points are in lexicographic order.
* `filter_points`, `length_points` — which points have members of a kind, and how many there are.
* `nodup_dimensions_of_mem_points` — a point has one value along each dimension.
* `mem_points_observedAxes_iff` — **the points are the choices of observed values.**
* `countP_points_observedAxes` — how many points have the values of a targeting.
-/

namespace BundlePackaging

/-! ### Choices from axes -/

section Choices

variable {α : Type} {r : α → α → Prop} {axes : List (List α)} {q l : List α} {a : α}

theorem points_ne_nil (h : ∀ l ∈ axes, l ≠ []) : points axes ≠ [] := by
  induction axes with
  | nil => simp [points]
  | cons l axes ih =>
    obtain ⟨hl, haxes⟩ := List.forall_mem_cons.1 h
    obtain ⟨a, ha⟩ := List.exists_mem_of_ne_nil l hl
    obtain ⟨q, hq⟩ := List.exists_mem_of_ne_nil _ (ih haxes)
    exact List.ne_nil_of_mem (mem_points_cons.2 ⟨a, ha, q, hq, rfl⟩)

theorem exists_axis_of_mem_point (hq : q ∈ points axes) (ha : a ∈ q) : ∃ l ∈ axes, a ∈ l := by
  induction axes generalizing q with
  | nil =>
    obtain rfl := List.mem_singleton.1 hq
    cases ha
  | cons l axes ih =>
    obtain ⟨b, hb, r, hr, rfl⟩ := mem_points_cons.1 hq
    rcases List.mem_cons.1 ha with rfl | ha
    · exact ⟨l, List.mem_cons_self, hb⟩
    · obtain ⟨l', hl', ha⟩ := ih hr ha
      exact ⟨l', List.mem_cons_of_mem _ hl', ha⟩

/-- A point has a member of each axis. -/
theorem exists_mem_of_mem_points (hq : q ∈ points axes) (hl : l ∈ axes) : ∃ a ∈ q, a ∈ l := by
  induction axes generalizing q with
  | nil => cases hl
  | cons l' axes ih =>
    obtain ⟨a, ha, q', hq', rfl⟩ := mem_points_cons.1 hq
    rcases List.mem_cons.1 hl with rfl | hl
    · exact ⟨a, List.mem_cons_self, ha⟩
    · obtain ⟨b, hb, hbl⟩ := ih hq' hl
      exact ⟨b, List.mem_cons_of_mem a hb, hbl⟩

/-- The points of ascending axes are in lexicographic order. -/
theorem pairwise_lex_points (h : ∀ l ∈ axes, l.Pairwise r) :
    (points axes).Pairwise (List.Lex r) := by
  induction axes with
  | nil => exact List.pairwise_singleton _ []
  | cons l axes ih =>
    obtain ⟨hl, haxes⟩ := List.forall_mem_cons.1 h
    unfold points
    rw [List.pairwise_flatMap]
    constructor
    · intro a _
      rw [List.pairwise_map]
      exact (ih haxes).imp .cons
    · apply hl.imp
      intro a b hab q hq q' hq'
      obtain ⟨x, -, rfl⟩ := List.mem_map.1 hq
      obtain ⟨y, -, rfl⟩ := List.mem_map.1 hq'
      exact .rel hab

/-- The points all of whose members are of a kind are the points of the axes narrowed down to this
kind. -/
theorem filter_points (p : α → Bool) (axes : List (List α)) :
    (points axes).filter (fun q => q.all p) = points (axes.map (·.filter p)) := by
  induction axes with
  | nil => rfl
  | cons l axes ih =>
    rw [List.map_cons]
    unfold points
    rw [← ih, List.filter_flatMap]
    induction l with
    | nil => rfl
    | cons a l ihl =>
      rw [List.flatMap_cons, ihl, List.filter_cons, List.filter_map]
      cases ha : p a with
      | true => simp [Function.comp_def, ha]
      | false => simp [Function.comp_def, ha]

/-- There are as many points as there are ways to choose from each axis. -/
theorem length_points (axes : List (List α)) :
    (points axes).length = (axes.map List.length).prod := by
  induction axes with
  | nil => rfl
  | cons l axes ih => simp [points, ih]

end Choices

variable {dims : SortedSet Dimension} {fragments : List Fragment} {d : Dimension} {v : Value}
  {point : List Value} {t : Targeting}

/-! ### Values in the order of their dimensions -/

/-- The values of a list are along different dimensions, in the order of these. -/
def ByDimension (l : List Value) : Prop := l.Pairwise fun v w => v.dimension.rank < w.dimension.rank

theorem ByDimension.nodup {l : List Value} (h : ByDimension l) : l.Nodup := by
  apply List.Pairwise.imp _ h
  rintro v _ hlt rfl
  exact Nat.lt_irrefl _ hlt

theorem ByDimension.nodup_dimensions {l : List Value} (h : ByDimension l) :
    (l.map (·.dimension)).Nodup := by
  rw [List.Nodup, List.pairwise_map]
  apply List.Pairwise.imp _ h
  intro v w hlt heq
  rw [heq] at hlt
  exact Nat.lt_irrefl _ hlt

theorem ByDimension.eq_of_mem_iff {l l' : List Value} (h : ByDimension l) (h' : ByDimension l')
    (hmem : ∀ v, v ∈ l ↔ v ∈ l') : l = l' :=
  eq_of_pairwise_of_mem_iff (fun _ _ _ _ hab hba => absurd hab (Nat.lt_asymm hba)) h h' h.nodup
    h'.nodup hmem

theorem pairwise_rank_toList (dims : SortedSet Dimension) :
    dims.toList.Pairwise fun d e => d.rank < e.rank := by
  apply List.Pairwise.imp _ dims.ascending
  intro d e hlt
  exact Nat.compare_eq_lt.1 hlt

/-- What is chosen along dimensions in order is in the order of these. -/
theorem byDimension_filterMap {chosen? : Dimension → Option Value}
    (hchosen : ∀ d v, chosen? d = some v → v.dimension = d) {ds : List Dimension}
    (h : ds.Pairwise fun d e => d.rank < e.rank) : ByDimension (ds.filterMap chosen?) := by
  unfold ByDimension
  rw [List.pairwise_filterMap]
  apply h.imp
  intro d e hlt v hv w hw
  rwa [hchosen d v hv, hchosen e w hw]

namespace Targeting

theorem get?_eq_some_iff : t.get? d = some v ↔ v ∈ t.values ∧ v.dimension = d := by
  rw [mem_values]
  constructor
  · intro h
    obtain rfl := dimension_of_get? h
    exact ⟨h, rfl⟩
  · rintro ⟨h, rfl⟩
    exact h

theorem byDimension_values (t : Targeting) : ByDimension t.values :=
  byDimension_filterMap (fun _ _ => dimension_of_get?) (by decide)

/-- A targeting is determined by the values it names. -/
theorem values_injective : Function.Injective values := by
  intro t u h
  apply ext_get?
  intro d
  apply Option.ext
  intro v
  rw [get?_eq_some_iff, get?_eq_some_iff, h]

end Targeting

/-! ### Axes -/

/-- Some fragment that is not for every device has the value. -/
def ObservedIn (fragments : List Fragment) (v : Value) : Prop :=
  ∃ f ∈ fragments, f.master = false ∧ v ∈ f.targeting.values

/-- An axis has the values that are observed along its dimension. -/
theorem mem_axis : v ∈ axis fragments d ↔ v.dimension = d ∧ ObservedIn fragments v := by
  unfold axis targetedFragments ObservedIn
  simp only [SortedSet.mem_ofList, List.mem_filterMap, List.mem_filter, Targeting.get?_eq_some_iff,
    Bool.not_eq_true']
  constructor
  · rintro ⟨f, ⟨hf, hmaster⟩, hv, hd⟩
    exact ⟨hd, f, hf, hmaster, hv⟩
  · rintro ⟨hd, f, hf, hmaster, hv⟩
    exact ⟨f, ⟨hf, hmaster⟩, hv, hd⟩

theorem mem_observedAxes {l : List Value} : l ∈ observedAxes dims fragments ↔
    ∃ d ∈ dims, l = (axis fragments d).toList ∧ l ≠ [] := by
  unfold observedAxes
  simp only [List.mem_filter, List.mem_map, SortedSet.mem_def, Bool.not_eq_true',
    List.isEmpty_eq_false_iff]
  constructor
  · rintro ⟨⟨d, hd, rfl⟩, hl⟩
    exact ⟨d, hd, rfl, hl⟩
  · rintro ⟨d, hd, rfl, hl⟩
    exact ⟨⟨d, hd, rfl⟩, hl⟩

/-- A value that is observed along a dimension that is sharded on lies on an axis. -/
theorem ObservedIn.axis_mem_observedAxes (h : ObservedIn fragments v) (hd : v.dimension ∈ dims) :
    (axis fragments v.dimension).toList ∈ observedAxes dims fragments := by
  have hv : v ∈ axis fragments v.dimension := mem_axis.2 ⟨rfl, h⟩
  exact mem_observedAxes.2 ⟨v.dimension, hd, rfl, List.ne_nil_of_mem (SortedSet.mem_def.1 hv)⟩

theorem points_observedAxes_ne_nil (dims : SortedSet Dimension) (fragments : List Fragment) :
    points (observedAxes dims fragments) ≠ [] := by
  apply points_ne_nil
  intro l hl
  obtain ⟨d, -, -, hnonempty⟩ := mem_observedAxes.1 hl
  exact hnonempty

/-- The values of a point are along dimensions that are sharded on, in their order. -/
theorem dimensions_sublist_of_mem_points (ds : List Dimension)
    (h : point ∈ points ((ds.map fun d => (axis fragments d).toList).filter (!·.isEmpty))) :
    (point.map (·.dimension)).Sublist ds := by
  induction ds generalizing point with
  | nil =>
    obtain rfl := List.mem_singleton.1 h
    exact .slnil
  | cons d ds ih =>
    rw [List.map_cons, List.filter_cons] at h
    split at h
    · obtain ⟨v, hv, q, hq, rfl⟩ := mem_points_cons.1 h
      rw [List.map_cons, (mem_axis.1 (SortedSet.mem_def.2 hv)).1]
      exact (ih hq).cons_cons d
    · exact (ih h).cons d

theorem byDimension_of_mem_points (h : point ∈ points (observedAxes dims fragments)) :
    ByDimension point := by
  have hranks :=
    (pairwise_rank_toList dims).sublist (dimensions_sublist_of_mem_points dims.toList h)
  rwa [List.pairwise_map] at hranks

/-- A point has one value along each dimension. -/
theorem nodup_dimensions_of_mem_points (h : point ∈ points (observedAxes dims fragments)) :
    (point.map (·.dimension)).Nodup :=
  (byDimension_of_mem_points h).nodup_dimensions

theorem pairwise_lex_points_observedAxes (dims : SortedSet Dimension) (fragments : List Fragment) :
    (points (observedAxes dims fragments)).Pairwise (List.Lex fun v w => compare v w = .lt) := by
  apply pairwise_lex_points
  intro l hl
  obtain ⟨d, -, rfl, -⟩ := mem_observedAxes.1 hl
  exact (axis fragments d).ascending

theorem nodup_points_observedAxes (dims : SortedSet Dimension) (fragments : List Fragment) :
    (points (observedAxes dims fragments)).Nodup := by
  apply List.Pairwise.imp _ (pairwise_lex_points_observedAxes dims fragments)
  rintro q _ hlex rfl
  refine List.lex_irrefl ?_ q hlex
  intro v hlt
  rw [Std.ReflOrd.compare_self] at hlt
  cases hlt

/-! ### Points -/

/-- A list of values chooses one observed value along each dimension that is sharded on and along
which there are any, in the order of the dimensions. -/
structure IsPoint (dims : SortedSet Dimension) (fragments : List Fragment) (q : List Value) :
    Prop where
  /-- The values are along different dimensions, in the order of these. -/
  byDimension : ByDimension q
  /-- The values are observed, along dimensions that are sharded on. -/
  observed : ∀ v ∈ q, v.dimension ∈ dims ∧ ObservedIn fragments v
  /-- No such dimension is left out along which a value is observed. -/
  complete : ∀ v, v.dimension ∈ dims → ObservedIn fragments v → ∃ w ∈ q, w.dimension = v.dimension

/-- What is chosen along each dimension with observed values, and not along the others, makes up a
point. -/
theorem filterMap_mem_points {ds : List Dimension} {chosen? : Dimension → Option Value}
    (h : ∀ d ∈ ds, (axis fragments d).toList = [] ∧ chosen? d = none ∨
      ∃ v ∈ axis fragments d, chosen? d = some v) :
    ds.filterMap chosen? ∈
      points ((ds.map fun d => (axis fragments d).toList).filter (!·.isEmpty)) := by
  induction ds with
  | nil => exact List.mem_singleton_self []
  | cons d ds ih =>
    obtain ⟨hd, hds⟩ := List.forall_mem_cons.1 h
    rw [List.map_cons]
    rcases hd with ⟨hempty, hnone⟩ | ⟨v, hv, hsome⟩
    · rw [List.filterMap_cons_none hnone, List.filter_cons_of_neg (by simp [hempty])]
      exact ih hds
    · have hv := SortedSet.mem_def.1 hv
      have hnonempty : (axis fragments d).toList ≠ [] := List.ne_nil_of_mem hv
      rw [List.filterMap_cons_some hsome, List.filter_cons_of_pos (by simp [hnonempty])]
      exact mem_points_cons.2 ⟨v, hv, _, ih hds, rfl⟩

theorem isPoint_of_mem_points (h : point ∈ points (observedAxes dims fragments)) :
    IsPoint dims fragments point := by
  refine ⟨byDimension_of_mem_points h, ?_, ?_⟩
  · intro v hv
    obtain ⟨l, hl, hvl⟩ := exists_axis_of_mem_point h hv
    obtain ⟨d, hd, rfl, -⟩ := mem_observedAxes.1 hl
    obtain ⟨rfl, hobserved⟩ := mem_axis.1 (SortedSet.mem_def.2 hvl)
    exact ⟨hd, hobserved⟩
  · intro v hd hv
    obtain ⟨w, hw, hwaxis⟩ := exists_mem_of_mem_points h (hv.axis_mem_observedAxes hd)
    exact ⟨w, hw, (mem_axis.1 (SortedSet.mem_def.2 hwaxis)).1⟩

namespace IsPoint

/-- A point has at most one value along each dimension. -/
theorem eq_of_dimension_eq (h : IsPoint dims fragments point) {w : Value} (hv : v ∈ point)
    (hw : w ∈ point) (hd : v.dimension = w.dimension) : v = w :=
  List.inj_on_of_nodup_map h.byDimension.nodup_dimensions hv hw hd

theorem mem_points (h : IsPoint dims fragments point) :
    point ∈ points (observedAxes dims fragments) := by
  let chosen? : Dimension → Option Value := fun d => point.find? fun v => v.dimension = d
  have hchosen : ∀ d v, chosen? d = some v ↔ v ∈ point ∧ v.dimension = d := by
    intro d v
    constructor
    · intro hv
      exact ⟨List.mem_of_find?_eq_some hv, by simpa using List.find?_some hv⟩
    · rintro ⟨hv, rfl⟩
      cases hfind : chosen? v.dimension with
      | none => simpa using List.find?_eq_none.1 hfind v hv
      | some w =>
        have hw : w.dimension = v.dimension := by simpa using List.find?_some hfind
        rw [h.eq_of_dimension_eq (List.mem_of_find?_eq_some hfind) hv hw]
  have hpoint : point = dims.toList.filterMap chosen? := by
    apply h.byDimension.eq_of_mem_iff
      (byDimension_filterMap (fun d v hv => ((hchosen d v).1 hv).2) (pairwise_rank_toList dims))
    intro v
    rw [List.mem_filterMap]
    constructor
    · intro hv
      exact ⟨v.dimension, SortedSet.mem_def.1 (h.observed v hv).1, (hchosen _ v).2 ⟨hv, rfl⟩⟩
    · rintro ⟨d, -, hv⟩
      exact ((hchosen d v).1 hv).1
  rw [hpoint]
  apply filterMap_mem_points
  intro d hd
  cases hfind : chosen? d with
  | some v =>
    right
    obtain ⟨hv, rfl⟩ := (hchosen d v).1 hfind
    exact ⟨v, mem_axis.2 ⟨rfl, (h.observed v hv).2⟩, rfl⟩
  | none =>
    left
    refine ⟨?_, rfl⟩
    rw [List.eq_nil_iff_forall_not_mem]
    intro v hv
    obtain ⟨rfl, hobserved⟩ := mem_axis.1 (SortedSet.mem_def.2 hv)
    obtain ⟨w, hw, hdimension⟩ := h.complete v (SortedSet.mem_def.2 hd) hobserved
    rw [(hchosen _ w).2 ⟨hw, hdimension⟩] at hfind
    cases hfind

end IsPoint

/-- The points of the observed axes are the choices of one observed value along each dimension along
which there are any. -/
theorem mem_points_observedAxes_iff :
    point ∈ points (observedAxes dims fragments) ↔ IsPoint dims fragments point :=
  ⟨isPoint_of_mem_points, IsPoint.mem_points⟩

/-! ### Points with given values -/

/-- Along its dimension a targeting names no other value. -/
def Targeting.admits (t : Targeting) (v : Value) : Bool :=
  t.get? v.dimension = none || t.get? v.dimension = some v

/-- A point has the values of a targeting just when the targeting admits the values of the point, if
its values are observed along dimensions that are sharded on. -/
theorem IsPoint.forall_mem_iff_all_admits (h : IsPoint dims fragments point)
    (ht : ∀ v ∈ t.values, v.dimension ∈ dims ∧ ObservedIn fragments v) :
    (∀ v ∈ t.values, v ∈ point) ↔ point.all t.admits := by
  rw [List.all_eq_true]
  constructor
  · intro hall v hv
    cases hget : t.get? v.dimension with
    | none => simp [Targeting.admits, hget]
    | some w =>
      obtain ⟨hw, hdimension⟩ := Targeting.get?_eq_some_iff.1 hget
      have hsame : w = v := h.eq_of_dimension_eq (hall w hw) hv hdimension
      simp [Targeting.admits, hget, hsame]
  · intro hall v hv
    obtain ⟨hd, hobserved⟩ := ht v hv
    obtain ⟨w, hw, hdimension⟩ := h.complete v hd hobserved
    have hadmits := hall w hw
    have hget : t.get? w.dimension = some v := Targeting.get?_eq_some_iff.2 ⟨hv, hdimension.symm⟩
    have hsame : v = w := by simpa [Targeting.admits, hget] using hadmits
    exact hsame ▸ hw

/-- Of an axis a targeting admits one value if it names a value along its dimension, which is then
on the axis, and all values otherwise. -/
theorem length_filter_admits_axis
    (ht : ∀ v ∈ t.values, ObservedIn fragments v) (d : Dimension) :
    ((axis fragments d).toList.filter t.admits).length =
      if t.get? d = none then (axis fragments d).size else 1 := by
  have hdimension : ∀ v ∈ (axis fragments d).toList, v.dimension = d := by
    intro v hv
    exact (mem_axis.1 (SortedSet.mem_def.2 hv)).1
  cases hget : t.get? d with
  | none =>
    have hall : (axis fragments d).toList.filter t.admits = (axis fragments d).toList := by
      rw [List.filter_eq_self]
      intro v hv
      simp [Targeting.admits, hdimension v hv, hget]
    rw [if_pos rfl, hall]
    rfl
  | some w =>
    obtain ⟨hw, hwd⟩ := Targeting.get?_eq_some_iff.1 hget
    have hmem : w ∈ (axis fragments d).toList :=
      SortedSet.mem_def.1 (mem_axis.2 ⟨hwd, ht w hw⟩)
    have hone : (axis fragments d).toList.filter t.admits =
        (axis fragments d).toList.filter (· == w) := by
      apply List.filter_congr
      intro v hv
      simp [Targeting.admits, hdimension v hv, hget, eq_comm, Bool.beq_eq_decide_eq]
    rw [if_neg (by simp), hone, ← List.countP_eq_length_filter]
    exact List.count_eq_one_of_mem (axis fragments d).nodup hmem

/-- There is one point with the values of a targeting for each choice from the axes along which the
targeting names no value. -/
theorem countP_points_observedAxes
    (ht : ∀ v ∈ t.values, v.dimension ∈ dims ∧ ObservedIn fragments v) :
    (points (observedAxes dims fragments)).countP (fun q => ∀ v ∈ t.values, v ∈ q) =
      ((dims.toList.filter fun d =>
        (axis fragments d).toList ≠ [] ∧ t.get? d = none).map fun d =>
          (axis fragments d).size).prod := by
  have hkind : (points (observedAxes dims fragments)).filter (fun q => ∀ v ∈ t.values, v ∈ q) =
      (points (observedAxes dims fragments)).filter fun q => q.all t.admits := by
    apply List.filter_congr
    intro q hq
    rw [Bool.eq_iff_iff, decide_eq_true_eq]
    exact (isPoint_of_mem_points hq).forall_mem_iff_all_admits ht
  have hsizes : (observedAxes dims fragments).map (fun l => (l.filter t.admits).length) =
      (dims.toList.filter fun d => (axis fragments d).toList ≠ []).map fun d =>
        if t.get? d = none then (axis fragments d).size else 1 := by
    have hnonempty : dims.toList.filter ((fun l => !l.isEmpty) ∘ fun d =>
        (axis fragments d).toList) =
        dims.toList.filter fun d => (axis fragments d).toList ≠ [] := by
      apply List.filter_congr
      intro d _
      rw [Bool.eq_iff_iff]
      simp
    unfold observedAxes
    rw [List.filter_map, List.map_map, hnonempty]
    apply List.map_congr_left
    intro d _
    exact length_filter_admits_axis (fun v hv => (ht v hv).2) d
  have hones : ∀ ds : List Dimension, (ds.map fun d =>
      if t.get? d = none then (axis fragments d).size else 1).prod =
        ((ds.filter fun d => t.get? d = none).map fun d => (axis fragments d).size).prod := by
    intro ds
    rw [List.prod_map_ite]
    simp
  rw [List.countP_eq_length_filter, hkind, filter_points, length_points, List.map_map]
  show ((observedAxes dims fragments).map fun l => (l.filter t.admits).length).prod = _
  rw [hsizes, hones, List.filter_filter]
  simp [Bool.and_comm]

end BundlePackaging
