import BundlePackaging.Device.Value

/-!
# Targetings

A targeting restricts an entry, a fragment or a package to some devices: along each dimension it
names at most one value.  The targeting that names none is the master targeting and fits every
device.

## Main definitions

* `Targeting` — the targetings, with `Targeting.get?`, `Targeting.set` and `Targeting.erase`.
* `Targeting.values` — the values named, in the order of the dimensions.
* `Targeting.merge` — the union of two targetings, or the first pair of values on which they differ.

## Main results

* `Targeting.get?_set`, `Targeting.ext_get?` — a targeting is the function from dimensions to
  values that it looks like.
-/

namespace BundlePackaging

/-- At most one value along each dimension. -/
structure Targeting where
  /-- The architecture, if one is named. -/
  abi : Option Abi := none
  /-- The screen density, if one is named. -/
  screenDensity : Option ScreenDensity := none
  /-- The language, if one is named. -/
  language : Option Language := none
  /-- The texture compression format, if one is named. -/
  textureFormat : Option TextureFormat := none
  /-- The device tier, if one is named. -/
  deviceTier : Option DeviceTier := none
  deriving DecidableEq, Repr, Inhabited

/-- Two targetings name different values along one dimension. -/
structure TargetingConflict where
  /-- The value of the targeting merged into. -/
  existing : Value
  /-- The value of the targeting merged. -/
  incoming : Value
  deriving DecidableEq, Repr

namespace Targeting

/-- The targeting that fits every device. -/
def master : Targeting := {}

/-- The value named along a dimension. -/
def get? (t : Targeting) : Dimension → Option Value
  | .abi => t.abi.map .abi
  | .screenDensity => t.screenDensity.map .screenDensity
  | .language => t.language.map .language
  | .textureFormat => t.textureFormat.map .textureFormat
  | .deviceTier => t.deviceTier.map .deviceTier

/-- The targeting that names `v` along its dimension, whatever it named there. -/
def set (t : Targeting) : Value → Targeting
  | .abi a => { t with abi := some a }
  | .screenDensity d => { t with screenDensity := some d }
  | .language l => { t with language := some l }
  | .textureFormat f => { t with textureFormat := some f }
  | .deviceTier n => { t with deviceTier := some n }

/-- The targeting that names nothing along `d`. -/
def erase (t : Targeting) : Dimension → Targeting
  | .abi => { t with abi := none }
  | .screenDensity => { t with screenDensity := none }
  | .language => { t with language := none }
  | .textureFormat => { t with textureFormat := none }
  | .deviceTier => { t with deviceTier := none }

/-- The targeting that names `v` alone. -/
def ofValue (v : Value) : Targeting := master.set v

/-- Whether the targeting names no value. -/
def isMaster (t : Targeting) : Bool := t = master

/-- The values named, in the order of the dimensions. -/
def values (t : Targeting) : List Value := Dimension.all.filterMap t.get?

theorem ext_get? {s t : Targeting} (h : ∀ d, s.get? d = t.get? d) : s = t := by
  obtain ⟨_, _, _, _, _⟩ := s
  obtain ⟨_, _, _, _, _⟩ := t
  have h₁ := h .abi
  have h₂ := h .screenDensity
  have h₃ := h .language
  have h₄ := h .textureFormat
  have h₅ := h .deviceTier
  simp only [get?] at h₁ h₂ h₃ h₄ h₅
  rw [Option.map_injective (fun _ _ => Value.abi.inj) h₁,
    Option.map_injective (fun _ _ => Value.screenDensity.inj) h₂,
    Option.map_injective (fun _ _ => Value.language.inj) h₃,
    Option.map_injective (fun _ _ => Value.textureFormat.inj) h₄,
    Option.map_injective (fun _ _ => Value.deviceTier.inj) h₅]

@[simp] theorem get?_master (d : Dimension) : master.get? d = none := by cases d <;> rfl

theorem get?_set (t : Targeting) (v : Value) (d : Dimension) :
    (t.set v).get? d = if v.dimension = d then some v else t.get? d := by
  cases v <;> cases d <;> rfl

theorem get?_erase (t : Targeting) (e d : Dimension) :
    (t.erase e).get? d = if e = d then none else t.get? d := by
  cases e <;> cases d <;> rfl

theorem dimension_of_get? {t : Targeting} {d : Dimension} {v : Value} (h : t.get? d = some v) :
    v.dimension = d := by
  cases d <;> obtain ⟨_, _, rfl⟩ := Option.map_eq_some_iff.1 h <;> rfl

theorem mem_values {t : Targeting} {v : Value} : v ∈ t.values ↔ t.get? v.dimension = some v := by
  refine List.mem_filterMap.trans ⟨?_, fun h => ⟨_, Dimension.mem_all _, h⟩⟩
  rintro ⟨d, _, h⟩
  rwa [dimension_of_get? h]

/-! ### Union -/

/-- Add the values to a targeting one by one, up to the first that differs from the value named
along its dimension. -/
def addAll (t : Targeting) : List Value → Except TargetingConflict Targeting
  | [] => .ok t
  | v :: vs =>
    match t.get? v.dimension with
    | none => (t.set v).addAll vs
    | some w => if w = v then t.addAll vs else .error ⟨w, v⟩

/-- The union of two targetings, which exists unless they name different values along some
dimension. -/
def merge (s t : Targeting) : Except TargetingConflict Targeting := s.addAll t.values

/-! ### Text -/

/-- The text of a targeting in messages: a list of dimensions and values. -/
def describe (t : Targeting) : String :=
  if t.isMaster then "master"
  else ", ".intercalate (t.values.map fun v => v.dimension.displayName ++ "=" ++ v.name)

end Targeting

/-- The devices that a finished package is offered to. -/
structure VariantTargeting where
  /-- The devices by their configuration. -/
  targeting : Targeting := .master
  /-- Whether the third signature scheme is limited to later system versions. -/
  v3Restricted : Bool := false
  deriving DecidableEq, Repr, Inhabited

end BundlePackaging
