import BundlePackaging.Order.Firsts
import BundlePackaging.Order.SortedSet
import BundlePackaging.Order.StableSort
import Mathlib.Data.List.Basic

/-!
# Lists that their members determine

A list in strict order is determined by its members, and so is a sorted set.  Leaving out repeated
members commutes with filtering and with reading keys off, so that it does not matter at which stage
repetitions are left out.

## Main results

* `firstsBy_firstsBy_id`, `map_firstsBy` — repetitions can be left out, and keys read off, at any
  stage.
* `eq_of_pairwise_of_mem_iff` — two lists in order with the same members, each once, are equal.
* `eq_of_pairwise_of_filter_eq` — lists in order are equal if they have the same members with each
  key, in the same order.
* `map_firstsBy_sortBy_eq` — what sorting and first occurrences make of a list depends on its
  members alone.
* `SortedSet.ext_mem` — two sorted sets with the same members are equal.
-/

namespace BundlePackaging

open Std

variable {α β γ : Type}

/-! ### First occurrences -/

section Firsts

variable [DecidableEq β] (key : α → β)

/-- First occurrences can be sorted out by their keys before or after they are taken. -/
theorem filter_firstsBy (p : β → Bool) (l : List α) :
    (firstsBy key l).filter (fun a => p (key a)) = firstsBy key (l.filter fun a => p (key a)) := by
  induction l with
  | nil => rfl
  | cons a l ih =>
    rw [firstsBy, List.filter_cons, List.filter_cons]
    have hcomm : ((firstsBy key l).filter fun b => key b ≠ key a).filter (fun b => p (key b)) =
        ((firstsBy key l).filter fun b => p (key b)).filter fun b => key b ≠ key a := by
      simp only [List.filter_filter, Bool.and_comm]
    by_cases hp : p (key a)
    · rw [if_pos hp, if_pos hp, firstsBy, hcomm, ih]
    · rw [if_neg hp, if_neg hp, hcomm, ih]
      -- no member left has the key of `a`, since `p` fails at that key
      refine List.filter_eq_self.2 fun b hb => ?_
      have hpb : p (key b) = true :=
        (List.mem_filter.1 ((firstsBy_sublist key _).subset hb)).2
      simp only [decide_eq_true_eq]
      rintro hkey
      exact hp (hkey ▸ hpb)

/-- Members that are repeated as a whole can be left out beforehand. -/
theorem firstsBy_firstsBy_id [DecidableEq α] (l : List α) :
    firstsBy key (firstsBy id l) = firstsBy key l := by
  induction l with
  | nil => rfl
  | cons a l ih =>
    rw [firstsBy, firstsBy, firstsBy, ← ih]
    congr 1
    have hout (m : List α) : (firstsBy key m).filter (fun b => key b ≠ key a) =
        firstsBy key (m.filter fun b => key b ≠ key a) := filter_firstsBy key (fun c => c ≠ key a) m
    rw [hout, hout, List.filter_filter]
    congr 1
    refine List.filter_congr fun b _ => ?_
    simp only [id_eq, Bool.and_eq_left_iff_imp, decide_eq_true_eq]
    rintro hkey rfl
    exact hkey rfl

/-- One more member counts only if no member has its key. -/
theorem firstsBy_concat (l : List α) (a : α) :
    firstsBy key (l ++ [a]) =
      if key a ∈ l.map key then firstsBy key l else firstsBy key l ++ [a] := by
  induction l with
  | nil => rfl
  | cons b l ih =>
    rw [List.cons_append, firstsBy, firstsBy, ih, List.map_cons]
    by_cases hl : key a ∈ l.map key
    · rw [if_pos hl, if_pos (List.mem_cons_of_mem _ hl)]
    · rw [if_neg hl, List.filter_append]
      by_cases hb : key a = key b
      · simp [hb]
      · simp [hb, hl]

/-- The first occurrences are the members that a search for their key finds. -/
theorem mem_firstsBy_iff {key : α → β} {a : α} {l : List α} :
    a ∈ firstsBy key l ↔ l.find? (key · = key a) = some a := by
  induction l with
  | nil => simp [firstsBy]
  | cons b l ih =>
    rw [firstsBy, List.mem_cons, List.mem_filter, ih, List.find?_cons]
    by_cases hkey : key b = key a
    · simp [hkey, eq_comm]
    · have hne : a ≠ b := fun h => hkey (h ▸ rfl)
      simp [hkey, hne, Ne.symm hkey]

theorem nodup_firstsBy_id [DecidableEq α] (l : List α) : (firstsBy id l).Nodup := by
  simpa using nodup_firstsBy id l

theorem mem_firstsBy_id [DecidableEq α] {a : α} {l : List α} : a ∈ firstsBy id l ↔ a ∈ l := by
  simpa using mem_map_firstsBy id (b := a) (l := l)

end Firsts

/-- First occurrences by a key of what is read off the members can be taken before or after it is
read off. -/
theorem map_firstsBy [DecidableEq β] (f : α → γ) (key : γ → β) (l : List α) :
    (firstsBy (fun a => key (f a)) l).map f = firstsBy key (l.map f) := by
  induction l with
  | nil => rfl
  | cons a l ih =>
    rw [firstsBy, List.map_cons, List.map_cons, firstsBy, ← ih, List.filter_map]
    rfl

/-- What a list looks like is determined by less of it, if less determines each member. -/
theorem map_eq_map_of_map_eq {δ : Type} {f : α → β} {g : α → δ} {l l' : List α}
    (h : l.map f = l'.map f) (hfg : ∀ a ∈ l, ∀ b ∈ l', f a = f b → g a = g b) :
    l.map g = l'.map g := by
  induction l generalizing l' with
  | nil =>
    rw [List.map_nil, eq_comm, List.map_eq_nil_iff] at h
    rw [h]
  | cons a l ih =>
    cases l' with
    | nil => cases h
    | cons b l' =>
      obtain ⟨hab, htail⟩ := List.cons.inj h
      rw [List.map_cons, List.map_cons, hfg a List.mem_cons_self b List.mem_cons_self hab,
        ih htail fun x hx y hy => hfg x (List.mem_cons_of_mem _ hx) y (List.mem_cons_of_mem _ hy)]

/-- In a list with distinct keys, a member is all that has its key. -/
theorem filter_key_eq_singleton [DecidableEq β] {key : α → β} {l : List α} {a : α}
    (h : (l.map key).Nodup) (ha : a ∈ l) : l.filter (key · = key a) = [a] := by
  induction l with
  | nil => cases ha
  | cons b l ih =>
    obtain ⟨hb, hl⟩ := List.nodup_cons.1 h
    rcases List.mem_cons.1 ha with rfl | ha
    · have hnone : l.filter (key · = key a) = [] := by
        rw [List.filter_eq_nil_iff]
        intro x hx hkey
        exact hb (of_decide_eq_true hkey ▸ List.mem_map_of_mem hx)
      rw [List.filter_cons_of_pos (by simp), hnone]
    · have hne : key b ≠ key a := fun hkey => hb (hkey ▸ List.mem_map_of_mem ha)
      rw [List.filter_cons_of_neg (by simpa using hne), ih hl ha]

/-- Where keys are distinct, a search for a key does not depend on the order. -/
theorem find?_eq_of_perm [DecidableEq β] {key : α → β} {l l' : List α} (h : l.Perm l')
    (hdistinct : (l.map key).Nodup) (k : β) : l.find? (key · = k) = l'.find? (key · = k) := by
  have hdistinct' : (l'.map key).Nodup := (h.map key).nodup_iff.1 hdistinct
  cases hfind : l.find? (key · = k) with
  | none =>
    rw [eq_comm, List.find?_eq_none]
    intro a ha
    exact List.find?_eq_none.1 hfind a (h.mem_iff.2 ha)
  | some a =>
    have hk := List.find?_some hfind
    obtain rfl : key a = k := of_decide_eq_true hk
    have ha : a ∈ l' := h.mem_iff.1 (List.mem_of_find?_eq_some hfind)
    rw [← List.head?_filter, filter_key_eq_singleton hdistinct' ha]
    rfl

/-! ### Lists in strict order -/

/-- A list in order without repetitions is determined by its members. -/
theorem eq_of_pairwise_of_mem_iff {le : α → α → Prop} {l l' : List α}
    (antisymm : ∀ a ∈ l, ∀ b ∈ l', le a b → le b a → a = b) (hl : l.Pairwise le)
    (hl' : l'.Pairwise le) (hn : l.Nodup) (hn' : l'.Nodup) (hmem : ∀ a, a ∈ l ↔ a ∈ l') :
    l = l' :=
  ((List.perm_ext_iff_of_nodup hn hn').2 hmem).eq_of_pairwise
    (fun a b ha hb => antisymm a ha b hb) hl hl'

theorem mem_iff_of_filter_eq [DecidableEq β] {key : α → β} {l l' : List α}
    (h : ∀ k, l.filter (key · = k) = l'.filter (key · = k)) (a : α) : a ∈ l ↔ a ∈ l' := by
  have hkey := congrArg (a ∈ ·) (h (key a))
  simpa using hkey

/-- Two lists in order are equal if for each key they have the same members in the same order, and
the order tells members with different keys apart. -/
theorem eq_of_pairwise_of_filter_eq [DecidableEq β] (key : α → β) {le : α → α → Prop}
    {l l' : List α} (antisymm : ∀ a ∈ l, ∀ b ∈ l', le a b → le b a → key a = key b)
    (hl : l.Pairwise le) (hl' : l'.Pairwise le)
    (h : ∀ k, l.filter (key · = k) = l'.filter (key · = k)) : l = l' := by
  induction l generalizing l' with
  | nil =>
    rw [eq_comm, List.eq_nil_iff_forall_not_mem]
    intro a ha
    exact List.not_mem_nil ((mem_iff_of_filter_eq h a).2 ha)
  | cons a l ih =>
    have ha := (mem_iff_of_filter_eq h a).1 List.mem_cons_self
    cases l' with
    | nil => exact absurd ha List.not_mem_nil
    | cons b l' =>
      have hb := (mem_iff_of_filter_eq h b).2 List.mem_cons_self
      obtain ⟨hleast, hrest⟩ := List.pairwise_cons.1 hl
      obtain ⟨hleast', hrest'⟩ := List.pairwise_cons.1 hl'
      have hkey : key a = key b := by
        rcases List.mem_cons.1 ha with heq | ha
        · rw [heq]
        · rcases List.mem_cons.1 hb with heq | hb
          · rw [heq]
          · exact antisymm a List.mem_cons_self b List.mem_cons_self (hleast b hb) (hleast' a ha)
      -- so both are the first member with this key
      have hfirst := h (key a)
      rw [List.filter_cons_of_pos (by simp), List.filter_cons_of_pos (by simp [hkey])] at hfirst
      have hab : a = b := (List.cons.inj hfirst).1
      have htail : ∀ k, l.filter (key · = k) = l'.filter (key · = k) := by
        intro k
        have hk := h k
        rw [List.filter_cons, List.filter_cons, ← hkey] at hk
        split at hk
        · exact (List.cons.inj hk).2
        · exact hk
      have hantisymm : ∀ x ∈ l, ∀ y ∈ l', le x y → le y x → key x = key y := fun x hx y hy =>
        antisymm x (List.mem_cons_of_mem a hx) y (List.mem_cons_of_mem b hy)
      rw [hab, ih hantisymm hrest hrest' htail]

/-- Of two lists whose members are tagged with the same tags, sorting by the tags and taking first
occurrences by them makes lists with the same tags in the same order, if the order tells any two
tags apart. -/
theorem map_firstsBy_sortBy_eq [DecidableEq β] [DecidableEq γ] (tag : α → γ) (le : γ → γ → Bool)
    (key : γ → β) (total : ∀ x y, le x y ∨ le y x) (trans : ∀ x y z, le x y → le y z → le x z)
    {l l' : List α} (antisymm : ∀ a ∈ l, ∀ b ∈ l, le (tag a) (tag b) → le (tag b) (tag a) →
      tag a = tag b) (hmem : ∀ x, x ∈ l.map tag ↔ x ∈ l'.map tag) :
    (firstsBy (fun a => key (tag a)) (sortBy (fun a b => le (tag a) (tag b)) l)).map tag =
      (firstsBy (fun a => key (tag a)) (sortBy (fun a b => le (tag a) (tag b)) l')).map tag := by
  -- the tags of the sorted list, each once
  let tags (m : List α) : List γ :=
    firstsBy id ((sortBy (fun a b => le (tag a) (tag b)) m).map tag)
  have hreduce (m : List α) :
      (firstsBy (fun a => key (tag a)) (sortBy (fun a b => le (tag a) (tag b)) m)).map tag =
        firstsBy key (tags m) := by
    rw [map_firstsBy tag key, firstsBy_firstsBy_id]
  have hsorted (m : List α) : (tags m).Pairwise fun x y => le x y := by
    refine List.Pairwise.sublist (firstsBy_sublist id _) (List.pairwise_map.2 ?_)
    exact sortBy_pairwise _ (fun a b => total (tag a) (tag b))
      (fun a b c => trans (tag a) (tag b) (tag c)) m
  have htags (m : List α) (x : γ) : x ∈ tags m ↔ x ∈ m.map tag := by
    rw [mem_firstsBy_id]
    exact ((sortBy_perm _ m).map tag).mem_iff
  rw [hreduce, hreduce]
  congr 1
  refine eq_of_pairwise_of_mem_iff ?_ (hsorted l) (hsorted l')
    (nodup_firstsBy_id _) (nodup_firstsBy_id _) fun x => ?_
  · intro x hx y hy
    rw [htags] at hx hy
    obtain ⟨a, ha, rfl⟩ := List.mem_map.1 hx
    obtain ⟨b, hb, rfl⟩ := List.mem_map.1 ((hmem y).2 hy)
    exact antisymm a ha b hb
  · rw [htags, htags, hmem]

theorem Ascending.nodup [Ord α] [TransOrd α] {l : List α} (h : Ascending l) : l.Nodup := by
  refine h.imp ?_
  rintro a _ hlt rfl
  rw [ReflOrd.compare_self] at hlt
  cases hlt

namespace SortedSet

variable [Ord α] [TransOrd α]

theorem nodup (s : SortedSet α) : s.toList.Nodup := s.ascending.nodup

/-- Two sorted sets with the same members are equal. -/
theorem ext_mem {s t : SortedSet α} (h : ∀ a, a ∈ s ↔ a ∈ t) : s = t := by
  refine ext (eq_of_pairwise_of_mem_iff ?_ s.ascending t.ascending s.nodup t.nodup h)
  intro a _ b _ hab hba
  have hgt := OrientedCmp.gt_of_lt hab
  rw [hba] at hgt
  cases hgt

theorem ofList_congr [LawfulEqOrd α] {l l' : List α} (h : ∀ a, a ∈ l ↔ a ∈ l') :
    ofList l = ofList l' :=
  ext_mem fun a => by rw [mem_ofList, mem_ofList, h a]

end SortedSet
end BundlePackaging
