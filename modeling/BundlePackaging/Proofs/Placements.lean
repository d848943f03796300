import BundlePackaging.BundleModule
import BundlePackaging.Proofs.Canonical
import Mathlib.Data.List.Induction

/-!
# What a sequence of placements builds

Placing an entry replaces what is at its path, except that a configuration stays unless the new
entry brings one.  So the entry that a module ends up with at a path is the one of the last
placement there, while the configuration may be that of an earlier one: of the last that brought
any.

## Main definitions

* `lastPlaced?` — the last placement at a path.
* `lastConfigured?` — the last configuration that a placement at a path brings.

## Main results

* `find?_placeSlot`, `find?_slots_ofPlacements` — what is at a path after one placement, and after
  all of them.
* `paths_ofPlacements` — each path is there once, where its first placement put it.
* **`ofPlacements_exact`** — the paths, the entries and the configurations of the module that a
  sequence of placements builds, and when a configuration is that of the last placement.
* `not_forall_config_of_lastPlaced` — it need not be.
-/

namespace BundlePackaging

variable {name : String} {kind : ModuleKind} {manifest : Manifest} {q : EntryPath}

/-! ### One placement -/

/-- A placement replaces the slot at its path, where the old configuration stays if there is no new
one, and no other. -/
theorem find?_placeSlot (s : Slot) (l : List Slot) (q : EntryPath) :
    (placeSlot s l).find? (·.entry.path = q) =
      if s.entry.path = q then
        some ⟨s.entry, s.config.or ((l.find? (·.entry.path = q)).bind (·.config))⟩
      else l.find? (·.entry.path = q) := by
  induction l with
  | nil =>
    by_cases hs : s.entry.path = q
    · simp [placeSlot, hs]
    · simp [placeSlot, hs]
  | cons t l ih =>
    rw [placeSlot]
    by_cases ht : t.entry.path = s.entry.path
    · rw [if_pos ht]
      by_cases hs : s.entry.path = q
      · simp [hs, ht]
      · simp [hs, ht]
    · rw [if_neg ht, List.find?_cons, ih, List.find?_cons]
      by_cases hs : s.entry.path = q
      · have htq : t.entry.path ≠ q := fun htq => ht (htq.trans hs.symm)
        simp [hs, htq]
      · simp only [if_neg hs]

/-! ### Sequences of placements -/

/-- The last placement of a sequence at a path. -/
def lastPlaced? (l : List Slot) (q : EntryPath) : Option Slot :=
  l.reverse.find? fun s => s.entry.path = q

/-- The last configuration that a placement of a sequence brings to a path. -/
def lastConfigured? (l : List Slot) (q : EntryPath) : Option EntryConfig :=
  (l.reverse.filter fun s => s.entry.path = q).findSome? (·.config)

theorem lastPlaced?_concat (l : List Slot) (s : Slot) :
    lastPlaced? (l ++ [s]) q = if s.entry.path = q then some s else lastPlaced? l q := by
  unfold lastPlaced?
  rw [List.reverse_concat, List.find?_cons]
  by_cases hs : s.entry.path = q
  · simp [hs]
  · simp [hs]

theorem lastConfigured?_concat (l : List Slot) (s : Slot) :
    lastConfigured? (l ++ [s]) q =
      if s.entry.path = q then s.config.or (lastConfigured? l q) else lastConfigured? l q := by
  unfold lastConfigured?
  rw [List.reverse_concat, List.filter_cons]
  by_cases hs : s.entry.path = q
  · rw [if_pos (decide_eq_true hs), if_pos hs, List.findSome?_cons]
    cases s.config <;> rfl
  · rw [if_neg (by simp [hs]), if_neg hs]

theorem lastConfigured?_eq_none {l : List Slot} :
    lastConfigured? l q = none ↔ ∀ s ∈ l, s.entry.path = q → s.config = none := by
  simp [lastConfigured?, List.findSome?_eq_none_iff]

/-- Without a placement at a path there is no configuration for it either. -/
theorem lastConfigured?_of_lastPlaced?_eq_none {l : List Slot} (h : lastPlaced? l q = none) :
    lastConfigured? l q = none := by
  rw [lastConfigured?_eq_none]
  intro s hs hsq
  have hne := List.find?_eq_none.1 h s (List.mem_reverse.2 hs)
  exact absurd (decide_eq_true hsq) hne

/-- A configuration that the last placement at a path brings is the last that any brings there. -/
theorem lastConfigured?_of_lastPlaced? {l : List Slot} {c : EntryConfig}
    (h : (lastPlaced? l q).bind (·.config) = some c) : lastConfigured? l q = some c := by
  induction l using List.reverseRecOn with
  | nil => cases h
  | append_singleton l s ih =>
    rw [lastPlaced?_concat] at h
    rw [lastConfigured?_concat]
    by_cases hs : s.entry.path = q
    · rw [if_pos hs] at h ⊢
      rw [show s.config = some c from h, Option.some_or]
    · rw [if_neg hs] at h ⊢
      exact ih h

/-! ### The module that is built -/

theorem ofPlacements_concat (l : List Slot) (s : Slot) :
    BundleModule.ofPlacements name kind manifest (l ++ [s]) =
      (BundleModule.ofPlacements name kind manifest l).place s :=
  List.foldl_concat ..

/-- Each path is there once, in the order of the first placements. -/
theorem paths_ofPlacements (name : String) (kind : ModuleKind) (manifest : Manifest)
    (l : List Slot) :
    (BundleModule.ofPlacements name kind manifest l).slots.map (·.entry.path) =
      firstsBy id (l.map (·.entry.path)) := by
  induction l using List.reverseRecOn with
  | nil => rfl
  | append_singleton l s ih =>
    rw [ofPlacements_concat, List.map_append, List.map_singleton, firstsBy_concat, List.map_id]
    show (placeSlot s _).map (·.entry.path) = _
    simp only [map_path_placeSlot, ih, mem_firstsBy_id, id_eq]

/-- At a path is the entry that was placed there last, with the last configuration that was placed
there. -/
theorem find?_slots_ofPlacements (name : String) (kind : ModuleKind) (manifest : Manifest)
    (l : List Slot) (q : EntryPath) :
    (BundleModule.ofPlacements name kind manifest l).slots.find? (·.entry.path = q) =
      (lastPlaced? l q).map fun s => ⟨s.entry, lastConfigured? l q⟩ := by
  induction l using List.reverseRecOn with
  | nil => rfl
  | append_singleton l s ih =>
    rw [ofPlacements_concat, lastPlaced?_concat, lastConfigured?_concat]
    show (placeSlot s _).find? (·.entry.path = q) = _
    rw [find?_placeSlot, ih]
    by_cases hs : s.entry.path = q
    · simp only [if_pos hs, Option.map_some]
      cases hlast : lastPlaced? l q with
      | some t => rfl
      | none => simp [lastConfigured?_of_lastPlaced?_eq_none hlast]
    · simp only [if_neg hs]

/-- A module that is built by placements has each path once, in the order of the first placements;
at each path it has the entry of the last placement there, and the last configuration that any
placement there brings.  This is what the last placement brings just when it brings one, or no
placement there does. -/
theorem ofPlacements_exact (name : String) (kind : ModuleKind) (manifest : Manifest)
    (l : List Slot) :
    let m := BundleModule.ofPlacements name kind manifest l
    m.entries.map (·.path) = firstsBy id (l.map (·.entry.path)) ∧
      ∀ q, m.entries.find? (·.path = q) = (lastPlaced? l q).map (·.entry) ∧
        m.config? q = lastConfigured? l q ∧
        (m.config? q = (lastPlaced? l q).bind (·.config) ↔
          ((lastPlaced? l q).bind (·.config)).isSome ∨
            ∀ s ∈ l, s.entry.path = q → s.config = none) := by
  intro m
  have hconfig (q : EntryPath) : m.config? q = lastConfigured? l q := by
    show (m.slots.find? (·.entry.path = q)).bind (·.config) = _
    rw [find?_slots_ofPlacements]
    cases hlast : lastPlaced? l q with
    | some s => rfl
    | none => exact (lastConfigured?_of_lastPlaced?_eq_none hlast).symm
  refine ⟨?_, fun q => ⟨?_, hconfig q, ?_⟩⟩
  · show (m.slots.map (·.entry)).map (·.path) = _
    rw [List.map_map]
    exact paths_ofPlacements name kind manifest l
  · show (m.slots.map (·.entry)).find? (·.path = q) = _
    rw [List.find?_map]
    show (m.slots.find? (·.entry.path = q)).map (·.entry) = _
    rw [find?_slots_ofPlacements, Option.map_map]
    rfl
  · rw [hconfig, ← lastConfigured?_eq_none]
    cases hlast : (lastPlaced? l q).bind (·.config) with
    | some c => simp [lastConfigured?_of_lastPlaced? hlast]
    | none => simp

/-- An entry that is placed without a configuration can end up with one that was placed at its path
before it. -/
theorem not_forall_config_of_lastPlaced :
    ¬ ∀ (name : String) (kind : ModuleKind) (manifest : Manifest) (l : List Slot) (q : EntryPath),
      (BundleModule.ofPlacements name kind manifest l).config? q =
        (lastPlaced? l q).bind (·.config) := by
  intro h
  have hstale := h "m" .feature ⟨"app", ∅, ∅⟩
    [⟨⟨⟨"a.txt"⟩, ⟨1, .memory [1]⟩, .compressed⟩, some ⟨.ofValue (.abi .x86), none⟩⟩,
      ⟨⟨⟨"a.txt"⟩, ⟨2, .memory [2]⟩, .compressed⟩, none⟩] ⟨"a.txt"⟩
  exact absurd hstale (by decide)

end BundlePackaging
