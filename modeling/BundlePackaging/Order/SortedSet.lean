/-!
# Sorted sets

A finite set of an ordered type, held as the strictly ascending list of its members.  Two sorted
sets with the same members are equal, so a set read off a list forgets order and repetitions.

## Main definitions

* `insertAscending` — put a member into an ascending list, once.
* `SortedSet` — the sets, with `SortedSet.ofList`, `SortedSet.insert`, `SortedSet.filter`.

## Main results

* `SortedSet.mem_ofList` — the members of the set of a list are the members of the list.
-/

namespace BundlePackaging

open Std

variable {α : Type} [Ord α]

/-! ### Ascending lists -/

/-- Every member of the list is smaller than every later one. -/
def Ascending (l : List α) : Prop := l.Pairwise fun a b => compare a b = .lt

/-- Put `a` at its place in an ascending list, unless it is there already. -/
def insertAscending (a : α) : List α → List α
  | [] => [a]
  | b :: l =>
    match compare a b with
    | .lt => a :: b :: l
    | .eq => b :: l
    | .gt => b :: insertAscending a l

@[simp] theorem insertAscending_nil (a : α) : insertAscending a [] = [a] := rfl

theorem mem_insertAscending [LawfulEqOrd α] {a x : α} {l : List α} :
    x ∈ insertAscending a l ↔ x = a ∨ x ∈ l := by
  induction l with
  | nil => simp
  | cons b l ih =>
    rw [insertAscending]
    split
    · simp
    · next h =>
      obtain rfl := LawfulEqOrd.eq_of_compare h
      simp
    · simp only [List.mem_cons, ih]
      grind

theorem Ascending.insertAscending [TransOrd α] [LawfulEqOrd α] {l : List α} (h : Ascending l)
    (a : α) : Ascending (insertAscending a l) := by
  induction l with
  | nil => simp [Ascending]
  | cons b l ih =>
    rw [BundlePackaging.insertAscending]
    obtain ⟨hb, hl⟩ := List.pairwise_cons.1 h
    split
    · next hab =>
      refine List.pairwise_cons.2 ⟨fun x hx => ?_, h⟩
      rcases List.mem_cons.1 hx with rfl | hx
      · exact hab
      · exact TransCmp.lt_trans hab (hb x hx)
    · exact h
    · next hab =>
      refine List.pairwise_cons.2 ⟨fun x hx => ?_, ih hl⟩
      rcases mem_insertAscending.1 hx with rfl | hx
      · exact OrientedCmp.gt_iff_lt.1 hab
      · exact hb x hx

/-! ### Sets -/

/-- A finite set, held as its members in strictly ascending order. -/
structure SortedSet (α : Type) [Ord α] where
  /-- The members, smallest first. -/
  toList : List α
  /-- No member is repeated or out of order. -/
  ascending : Ascending toList

namespace SortedSet

@[ext] theorem ext {s t : SortedSet α} (h : s.toList = t.toList) : s = t := by
  cases s; cases t; cases h; rfl

instance [DecidableEq α] : DecidableEq (SortedSet α) := fun s t =>
  decidable_of_iff (s.toList = t.toList) ⟨ext, fun h => h ▸ rfl⟩

/-- The set without members. -/
def empty : SortedSet α := ⟨[], List.Pairwise.nil⟩

instance : Inhabited (SortedSet α) := ⟨empty⟩

instance : EmptyCollection (SortedSet α) := ⟨empty⟩

instance : Membership α (SortedSet α) := ⟨fun s a => a ∈ s.toList⟩

instance [DecidableEq α] (a : α) (s : SortedSet α) : Decidable (a ∈ s) :=
  inferInstanceAs (Decidable (a ∈ s.toList))

theorem mem_def {a : α} {s : SortedSet α} : a ∈ s ↔ a ∈ s.toList := Iff.rfl

/-- How many members the set has. -/
def size (s : SortedSet α) : Nat := s.toList.length

/-- Whether the set has no member. -/
def isEmpty (s : SortedSet α) : Bool := s.toList.isEmpty

/-- The members that satisfy `p`. -/
def filter (p : α → Bool) (s : SortedSet α) : SortedSet α :=
  ⟨s.toList.filter p, s.ascending.filter p⟩

@[simp] theorem toList_empty : (∅ : SortedSet α).toList = [] := rfl

@[simp] theorem toList_filter (p : α → Bool) (s : SortedSet α) :
    (s.filter p).toList = s.toList.filter p := rfl

variable [TransOrd α] [LawfulEqOrd α]

/-- The set with one more member. -/
def insert (a : α) (s : SortedSet α) : SortedSet α :=
  ⟨insertAscending a s.toList, s.ascending.insertAscending a⟩

/-- The set of the members of a list. -/
def ofList : List α → SortedSet α
  | [] => ∅
  | a :: l => insert a (ofList l)

@[simp] theorem mem_insert {a x : α} {s : SortedSet α} : x ∈ s.insert a ↔ x = a ∨ x ∈ s :=
  mem_insertAscending

@[simp] theorem mem_ofList {x : α} {l : List α} : x ∈ ofList l ↔ x ∈ l := by
  induction l with
  | nil => simp [ofList, mem_def]
  | cons a l ih => simp [ofList, ih]

end SortedSet

end BundlePackaging
