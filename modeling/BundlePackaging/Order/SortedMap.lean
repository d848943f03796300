/-!
# Sorted maps

A finite map from an ordered type, held as its entries in strictly ascending order of their keys.
Writing a key again replaces its value.

## Main definitions

* `SortedMap` — the maps, with `SortedMap.get?`, `SortedMap.insert` and `SortedMap.ofList`.

## Main results

* `SortedMap.get?_insert` — after writing a key, it has the value written and every other key the
  value it had.
* `SortedMap.insert_of_get?_eq_some` — writing a value that is there already changes nothing.
-/

namespace BundlePackaging

open Std

variable {α β : Type} [Ord α]

/-! ### Lists of entries -/

/-- Every key of the list is smaller than every later one. -/
def AscendingKeys (l : List (α × β)) : Prop := l.Pairwise fun a b => compare a.1 b.1 = .lt

/-- Write `v` under the key `k`, in place of the value that `k` has. -/
def writeKey (k : α) (v : β) : List (α × β) → List (α × β)
  | [] => [(k, v)]
  | e :: l =>
    match compare k e.1 with
    | .lt => (k, v) :: e :: l
    | .eq => (k, v) :: l
    | .gt => e :: writeKey k v l

theorem mem_writeKey {k : α} {v : β} {x : α × β} {l : List (α × β)} (h : x ∈ writeKey k v l) :
    x = (k, v) ∨ x ∈ l := by
  induction l with
  | nil => exact .inl (List.mem_singleton.1 h)
  | cons e l ih =>
    rw [writeKey] at h
    split at h
    · exact List.mem_cons.1 h
    · exact (List.mem_cons.1 h).imp_right (List.mem_cons_of_mem _)
    · rcases List.mem_cons.1 h with rfl | h
      · exact .inr List.mem_cons_self
      · exact (ih h).imp_right (List.mem_cons_of_mem _)

theorem AscendingKeys.writeKey [TransOrd α] {l : List (α × β)} (h : AscendingKeys l) (k : α)
    (v : β) : AscendingKeys (writeKey k v l) := by
  induction l with
  | nil => simp [BundlePackaging.writeKey, AscendingKeys]
  | cons e l ih =>
    rw [BundlePackaging.writeKey]
    obtain ⟨he, hl⟩ := List.pairwise_cons.1 h
    split
    · next hk =>
      refine List.pairwise_cons.2 ⟨fun x hx => ?_, h⟩
      rcases List.mem_cons.1 hx with rfl | hx
      · exact hk
      · exact TransCmp.lt_trans hk (he x hx)
    · next hk => exact List.pairwise_cons.2 ⟨fun x hx => TransCmp.lt_of_eq_of_lt hk (he x hx), hl⟩
    · next hk =>
      refine List.pairwise_cons.2 ⟨fun x hx => ?_, ih hl⟩
      rcases mem_writeKey hx with rfl | hx
      · exact OrientedCmp.gt_iff_lt.1 hk
      · exact he x hx

/-- Writing what is there already changes nothing. -/
theorem writeKey_of_mem [TransOrd α] {k : α} {v : β} {l : List (α × β)} (hl : AscendingKeys l)
    (h : (k, v) ∈ l) : writeKey k v l = l := by
  induction l with
  | nil => cases h
  | cons e l ih =>
    obtain ⟨he, hl⟩ := List.pairwise_cons.1 hl
    rw [writeKey]
    rcases List.mem_cons.1 h with rfl | h
    · rw [ReflOrd.compare_self]
    · have hk : compare k e.1 = .gt := OrientedCmp.gt_iff_lt.2 (he _ h)
      rw [hk]
      exact congrArg (e :: ·) (ih hl h)

/-! ### Maps -/

/-- A finite map, held as its entries in strictly ascending order of their keys. -/
structure SortedMap (α β : Type) [Ord α] where
  /-- The entries, smallest key first. -/
  toList : List (α × β)
  /-- No key is repeated or out of order. -/
  ascending : AscendingKeys toList

namespace SortedMap

@[ext] theorem ext {s t : SortedMap α β} (h : s.toList = t.toList) : s = t := by
  cases s; cases t; cases h; rfl

instance [DecidableEq α] [DecidableEq β] : DecidableEq (SortedMap α β) := fun s t =>
  decidable_of_iff (s.toList = t.toList) ⟨ext, fun h => h ▸ rfl⟩

/-- The map without entries. -/
def empty : SortedMap α β := ⟨[], List.Pairwise.nil⟩

instance : Inhabited (SortedMap α β) := ⟨empty⟩

instance : EmptyCollection (SortedMap α β) := ⟨empty⟩

/-- The value under the key `k`. -/
def get? [DecidableEq α] (m : SortedMap α β) (k : α) : Option β :=
  (m.toList.find? fun e => e.1 = k).map (·.2)

/-- The map with `v` under the key `k`. -/
def insert [TransOrd α] (k : α) (v : β) (m : SortedMap α β) : SortedMap α β :=
  ⟨writeKey k v m.toList, m.ascending.writeKey k v⟩

/-- Write the entries of a list in turn; the last value of a key stays. -/
def ofList [TransOrd α] (l : List (α × β)) : SortedMap α β :=
  l.foldl (fun m e => m.insert e.1 e.2) ∅

theorem get?_insert [TransOrd α] [LawfulEqOrd α] [DecidableEq α] (m : SortedMap α β) (k x : α)
    (v : β) : (m.insert k v).get? x = if k = x then some v else m.get? x := by
  simp only [get?, insert]
  induction m.toList with
  | nil => by_cases h : k = x <;> simp [writeKey, h]
  | cons e l ih =>
    obtain ⟨y, w⟩ := e
    rw [writeKey]
    split
    · by_cases h : k = x <;> simp [List.find?_cons, h]
    · next hk =>
      have hky : k = y := LawfulEqOrd.eq_of_compare hk
      subst hky
      by_cases h : k = x <;> simp [h]
    · next hk =>
      by_cases hy : y = x
      · have hne : k ≠ x := by
          rintro rfl
          rw [hy, ReflOrd.compare_self] at hk
          exact absurd hk (by decide)
        simp [hy, hne]
      · simp only [List.find?_cons, hy, decide_false]
        exact ih

theorem insert_of_get?_eq_some [TransOrd α] [DecidableEq α] {m : SortedMap α β} {k : α} {v : β}
    (h : m.get? k = some v) : m.insert k v = m := by
  obtain ⟨e, he, rfl⟩ := Option.map_eq_some_iff.1 h
  have hk := List.find?_some he
  obtain rfl : e.1 = k := of_decide_eq_true hk
  exact ext (writeKey_of_mem m.ascending (List.mem_of_find?_eq_some he))

end SortedMap

end BundlePackaging
