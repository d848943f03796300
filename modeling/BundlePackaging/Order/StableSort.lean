/-!
# Stable sorting

Sort a list by a relation `le` that says which members may stand in front of which.  Insertion from
the right puts a member in front of the first one that it may precede, so that among members that
may precede each other an earlier one stays in front of a later one.

## Main definitions

* `insertBy`, `sortBy` — insertion and sort.

## Main results

* `sortBy_perm` — sorting only reorders.
* `sortBy_pairwise` — the result is in order, for a relation that is total and transitive.
* `sortBy_eq_self` — a list in order stays as it is.
* `filter_sortBy` — members that may precede each other keep their order.
-/

namespace BundlePackaging

variable {α : Type} (le : α → α → Bool)

/-- Put `a` in front of the first member that it may precede. -/
def insertBy (a : α) : List α → List α
  | [] => [a]
  | b :: l => if le a b then a :: b :: l else b :: insertBy a l

/-- Sort a list, keeping the order among members that may precede each other. -/
def sortBy : List α → List α
  | [] => []
  | a :: l => insertBy le a (sortBy l)

theorem insertBy_perm (a : α) (l : List α) : (insertBy le a l).Perm (a :: l) := by
  induction l with
  | nil => exact .refl _
  | cons b l ih =>
    rw [insertBy]
    split
    · exact .refl _
    · exact (ih.cons b).trans (.swap a b l)

theorem sortBy_perm (l : List α) : (sortBy le l).Perm l := by
  induction l with
  | nil => exact .refl _
  | cons a l ih => exact (insertBy_perm le a _).trans (ih.cons a)

theorem insertBy_pairwise (total : ∀ a b, le a b ∨ le b a)
    (trans : ∀ a b c, le a b → le b c → le a c) {a : α} {l : List α}
    (h : l.Pairwise fun x y => le x y) : (insertBy le a l).Pairwise fun x y => le x y := by
  induction l with
  | nil => simp [insertBy]
  | cons b l ih =>
    obtain ⟨hb, hl⟩ := List.pairwise_cons.1 h
    rw [insertBy]
    split
    · next hab =>
      refine List.pairwise_cons.2 ⟨fun x hx => ?_, h⟩
      rcases List.mem_cons.1 hx with rfl | hx
      · exact hab
      · exact trans _ _ _ hab (hb x hx)
    · next hab =>
      refine List.pairwise_cons.2 ⟨fun x hx => ?_, ih hl⟩
      rcases List.mem_cons.1 ((insertBy_perm le a l).mem_iff.1 hx) with rfl | hx
      · exact (total x b).resolve_left hab
      · exact hb x hx

theorem sortBy_pairwise (total : ∀ a b, le a b ∨ le b a)
    (trans : ∀ a b c, le a b → le b c → le a c) (l : List α) :
    (sortBy le l).Pairwise fun x y => le x y := by
  induction l with
  | nil => exact .nil
  | cons a l ih => exact insertBy_pairwise le total trans ih

/-- A list sorted by numbers has them in ascending order. -/
theorem sortBy_pairwise_of_key (key : α → Nat) (l : List α) :
    (sortBy (fun a b => key a ≤ key b) l).Pairwise fun a b => key a ≤ key b := by
  refine (sortBy_pairwise _ ?_ ?_ l).imp of_decide_eq_true
  · intro a b
    simp only [decide_eq_true_eq]
    omega
  · intro a b c
    simp only [decide_eq_true_eq]
    omega

/-- Sorting a list that is in order changes nothing. -/
theorem sortBy_eq_self {l : List α} (h : l.Pairwise fun a b => le a b) : sortBy le l = l := by
  induction l with
  | nil => rfl
  | cons a l ih =>
    obtain ⟨ha, hl⟩ := List.pairwise_cons.1 h
    rw [sortBy, ih hl]
    cases l with
    | nil => rfl
    | cons b l => rw [insertBy, if_pos (ha b List.mem_cons_self)]

/-! ### Stability -/

/-- An inserted member goes in front of those that it may precede. -/
theorem filter_insertBy (p : α → Bool) {a : α} {l : List α}
    (h : p a → ∀ b ∈ l, p b → le a b) : (insertBy le a l).filter p = (a :: l).filter p := by
  induction l with
  | nil => rfl
  | cons b l ih =>
    have ih := ih fun ha x hx => h ha x (List.mem_cons_of_mem b hx)
    rw [insertBy]
    split
    · rfl
    · next hab =>
      rw [List.filter_cons, ih, List.filter_cons, List.filter_cons, List.filter_cons]
      by_cases ha : p a
      · -- a member behind which `a` goes is not of its kind
        have hb : ¬ p b := fun hb => hab (h ha b List.mem_cons_self hb)
        simp [ha, hb]
      · simp [ha]

/-- Members of a kind that may precede each other keep their order. -/
theorem filter_sortBy (p : α → Bool) (h : ∀ a b, p a → p b → le a b) (l : List α) :
    (sortBy le l).filter p = l.filter p := by
  induction l with
  | nil => rfl
  | cons a l ih =>
    rw [sortBy, filter_insertBy le p fun ha b _ => h a b ha, List.filter_cons, ih, ← List.filter_cons]

end BundlePackaging
