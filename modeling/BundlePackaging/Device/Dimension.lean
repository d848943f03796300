import BundlePackaging.Order.SortedSet

/-!
# Dimensions of device variation

Devices differ along five dimensions.  They have a fixed order, in which every listing of
dimensions and of the values along them is given.

## Main definitions

* `Dimension`, `Dimension.all` — the dimensions and their order.
* `Dimension.suffixKey?` — the key under which directory suffixes name values of the dimension.
* `Dimension.isStandaloneAxis` — whether standalone packages differ along the dimension.
-/

namespace BundlePackaging

open Std

/-- A dimension along which devices differ. -/
inductive Dimension where
  /-- The processor architecture. -/
  | abi
  /-- The density of the screen. -/
  | screenDensity
  /-- The language of the user. -/
  | language
  /-- The format of compressed textures. -/
  | textureFormat
  /-- The tier of the device's capabilities. -/
  | deviceTier
  deriving DecidableEq, Repr, Inhabited

namespace Dimension

/-- The dimensions in their order. -/
def all : List Dimension := [abi, screenDensity, language, textureFormat, deviceTier]

theorem mem_all (d : Dimension) : d ∈ all := by cases d <;> decide

/-- The position of a dimension in the order. -/
def rank : Dimension → Nat
  | abi => 0
  | screenDensity => 1
  | language => 2
  | textureFormat => 3
  | deviceTier => 4

theorem eq_of_rank_eq {d e : Dimension} (h : d.rank = e.rank) : d = e := by
  cases d <;> cases e <;> simp_all [rank]

instance : Ord Dimension := ⟨compareOn rank⟩

instance : TransOrd Dimension := inferInstanceAs (TransCmp (compareOn rank))

instance : LawfulEqOrd Dimension where
  eq_of_compare h := eq_of_rank_eq (LawfulEqOrd.eq_of_compare (show compare _ _ = .eq from h))

/-- The name in messages. -/
def displayName : Dimension → String
  | abi => "ABI"
  | screenDensity => "screen density"
  | language => "language"
  | textureFormat => "texture compression format"
  | deviceTier => "device tier"

/-- The name in configuration documents. -/
def configName : Dimension → String
  | abi => "ABI"
  | screenDensity => "SCREEN_DENSITY"
  | language => "LANGUAGE"
  | textureFormat => "TEXTURE_COMPRESSION_FORMAT"
  | deviceTier => "DEVICE_TIER"

/-- The name in the set of dimensions that a log line shows. -/
def logName : Dimension → String
  | abi => "Abi"
  | screenDensity => "ScreenDensity"
  | language => "Language"
  | textureFormat => "TextureCompressionFormat"
  | deviceTier => "DeviceTier"

/-- The dimension with the given name in configuration documents. -/
def ofConfigName? (name : String) : Option Dimension := all.find? fun d => d.configName = name

/-- The key under which directory suffixes name a value of the dimension, if they can. -/
def suffixKey? : Dimension → Option String
  | textureFormat => some "tcf"
  | deviceTier => some "tier"
  | abi | screenDensity | language => none

/-- No key has the character that opens a suffix. -/
theorem hash_notMem_of_suffixKey? {d : Dimension} {key : String} (h : d.suffixKey? = some key) :
    '#' ∉ key.toList := by
  have hkeys : ∀ d ∈ all, ∀ key ∈ d.suffixKey?, '#' ∉ key.toList := by decide
  exact hkeys d d.mem_all key h

/-- Whether standalone packages differ along the dimension.  What is targeted along any other
dimension is in every package. -/
def isStandaloneAxis : Dimension → Bool
  | abi | screenDensity => true
  | language | textureFormat | deviceTier => false

end Dimension
end BundlePackaging
