/-!
# First occurrences

Of the members of a list that share a key only the first counts.

## Main definitions

* `firstsBy` — the members that are the first with their key.
* `firstRepeated?` — the first member whose key an earlier member has.

## Main results

* `firstsBy_sublist`, `nodup_firstsBy`, `mem_map_firstsBy` — the first occurrences keep their order,
  have distinct keys, and have all keys of the list.
-/

namespace BundlePackaging

variable {α β : Type} [DecidableEq β] (key : α → β)

/-- The members that are the first with their key, in order. -/
def firstsBy : List α → List α
  | [] => []
  | a :: l => a :: (firstsBy l).filter fun b => key b ≠ key a

/-- The first member whose key is among `seen` or is that of an earlier member. -/
def firstRepeated? (seen : List β) : List α → Option α
  | [] => none
  | a :: l => if key a ∈ seen then some a else firstRepeated? (key a :: seen) l

theorem firstsBy_sublist (l : List α) : (firstsBy key l).Sublist l := by
  induction l with
  | nil => exact .slnil
  | cons a l ih => exact (List.filter_sublist.trans ih).cons_cons a

theorem nodup_firstsBy (l : List α) : ((firstsBy key l).map key).Nodup := by
  induction l with
  | nil => exact .nil
  | cons a l ih =>
    rw [firstsBy, List.map_cons, List.nodup_cons]
    refine ⟨?_, ih.sublist (List.filter_sublist.map key)⟩
    simp

theorem mem_map_firstsBy {b : β} {l : List α} :
    b ∈ (firstsBy key l).map key ↔ b ∈ l.map key := by
  induction l with
  | nil => rfl
  | cons a l ih =>
    rw [firstsBy, List.map_cons, List.map_cons, List.mem_cons, List.mem_cons]
    by_cases hb : b = key a
    · simp [hb]
    · simp only [List.mem_map] at ih
      simp only [hb, false_or, List.mem_map, List.mem_filter, decide_eq_true_eq, ← ih]
      constructor
      · rintro ⟨x, ⟨hx, _⟩, rfl⟩
        exact ⟨x, hx, rfl⟩
      · rintro ⟨x, hx, rfl⟩
        exact ⟨x, ⟨hx, hb⟩, rfl⟩

end BundlePackaging
