import BundlePackaging.Device.Dimension

/-!
# Values along the dimensions

Along each dimension a device has one of finitely many values, or, for languages and tiers, a value
of an unbounded kind.  Values are ordered by their dimension first and within a dimension by the
order of its values: the order of the lists below, the order of the tags for languages, and the
order of the numbers for tiers.

## Main definitions

* `Abi`, `ScreenDensity`, `TextureFormat`, `Language`, `DeviceTier` — the values of each dimension.
* `Value` — a value along some dimension, with `Value.dimension` and `Value.name`.

## Main results

* `Value.orderKey_injective` — the order tells any two values apart.
-/

namespace BundlePackaging

open Std

/-! ### The values of each dimension -/

/-- A processor architecture. -/
inductive Abi where
  | armeabi | armeabiV7a | arm64V8a | x86 | x86_64 | mips | mips64 | riscv64
  deriving DecidableEq, Repr, Inhabited

namespace Abi

/-- The architectures in their order. -/
def all : List Abi := [armeabi, armeabiV7a, arm64V8a, x86, x86_64, mips, mips64, riscv64]

/-- The name of the architecture, which is also the name of its directory below `lib`. -/
def name : Abi → String
  | armeabi => "armeabi"
  | armeabiV7a => "armeabi-v7a"
  | arm64V8a => "arm64-v8a"
  | x86 => "x86"
  | x86_64 => "x86_64"
  | mips => "mips"
  | mips64 => "mips64"
  | riscv64 => "riscv64"

/-- The architecture with the given name. -/
def ofName? (s : String) : Option Abi := all.find? fun a => a.name = s

/-- The position in the order. -/
def rank (a : Abi) : Nat := all.idxOf a

theorem rank_injective {a b : Abi} (h : a.rank = b.rank) : a = b := by
  cases a <;> cases b <;> revert h <;> decide

instance : Ord Abi := ⟨compareOn rank⟩

instance : TransOrd Abi := inferInstanceAs (TransCmp (compareOn rank))

instance : LawfulEqOrd Abi where
  eq_of_compare h := rank_injective (LawfulEqOrd.eq_of_compare (show compare _ _ = .eq from h))

end Abi

/-- A bucket of screen densities. -/
inductive ScreenDensity where
  | ldpi | mdpi | tvdpi | hdpi | xhdpi | xxhdpi | xxxhdpi
  deriving DecidableEq, Repr, Inhabited

namespace ScreenDensity

/-- The densities in their order. -/
def all : List ScreenDensity := [ldpi, mdpi, tvdpi, hdpi, xhdpi, xxhdpi, xxxhdpi]

/-- The name of the density. -/
def name : ScreenDensity → String
  | ldpi => "ldpi"
  | mdpi => "mdpi"
  | tvdpi => "tvdpi"
  | hdpi => "hdpi"
  | xhdpi => "xhdpi"
  | xxhdpi => "xxhdpi"
  | xxxhdpi => "xxxhdpi"

/-- The density with the given name. -/
def ofName? (s : String) : Option ScreenDensity := all.find? fun d => d.name = s

/-- The position in the order. -/
def rank (d : ScreenDensity) : Nat := all.idxOf d

theorem rank_injective {a b : ScreenDensity} (h : a.rank = b.rank) : a = b := by
  cases a <;> cases b <;> revert h <;> decide

end ScreenDensity

/-- A format of compressed textures. -/
inductive TextureFormat where
  | etc1Rgb8 | paletted | threeDc | atc | latc | dxt1 | s3tc | pvrtc | astc | etc2
  deriving DecidableEq, Repr, Inhabited

namespace TextureFormat

/-- The formats in their order. -/
def all : List TextureFormat :=
  [etc1Rgb8, paletted, threeDc, atc, latc, dxt1, s3tc, pvrtc, astc, etc2]

/-- The name of the format. -/
def name : TextureFormat → String
  | etc1Rgb8 => "etc1_rgb8"
  | paletted => "paletted"
  | threeDc => "3dc"
  | atc => "atc"
  | latc => "latc"
  | dxt1 => "dxt1"
  | s3tc => "s3tc"
  | pvrtc => "pvrtc"
  | astc => "astc"
  | etc2 => "etc2"

/-- The format with the given name. -/
def ofName? (s : String) : Option TextureFormat := all.find? fun f => f.name = s

/-- The position in the order. -/
def rank (f : TextureFormat) : Nat := all.idxOf f

theorem rank_injective {a b : TextureFormat} (h : a.rank = b.rank) : a = b := by
  cases a <;> cases b <;> revert h <;> decide

end TextureFormat

/-- A language, named by its tag. -/
structure Language where
  /-- The tag, which may be any text. -/
  tag : String
  deriving DecidableEq, Repr, Inhabited

/-- A tier of device capabilities. -/
structure DeviceTier where
  /-- The number of the tier. -/
  level : UInt32
  deriving DecidableEq, Repr, Inhabited

/-! ### Values -/

/-- A value along one of the dimensions. -/
inductive Value where
  /-- An architecture. -/
  | abi (a : Abi)
  /-- A screen density. -/
  | screenDensity (d : ScreenDensity)
  /-- A language. -/
  | language (l : Language)
  /-- A texture compression format. -/
  | textureFormat (f : TextureFormat)
  /-- A device tier. -/
  | deviceTier (t : DeviceTier)
  deriving DecidableEq, Repr, Inhabited

namespace Value

/-- The dimension along which the value lies. -/
def dimension : Value → Dimension
  | abi _ => .abi
  | screenDensity _ => .screenDensity
  | language _ => .language
  | textureFormat _ => .textureFormat
  | deviceTier _ => .deviceTier

/-- The text of the value, which is also how a directory suffix names it. -/
def name : Value → String
  | abi a => a.name
  | screenDensity d => d.name
  | language l => l.tag
  | textureFormat f => f.name
  | deviceTier t => toString t.level.toNat

/-- Numbers whose lexicographic order is the order of the values. -/
def orderKey : Value → List Nat
  | abi a => [0, a.rank]
  | screenDensity d => [1, d.rank]
  | language l => 2 :: l.tag.toList.map Char.toNat
  | textureFormat f => [3, f.rank]
  | deviceTier t => [4, t.level.toNat]

theorem orderKey_injective {v w : Value} (h : v.orderKey = w.orderKey) : v = w := by
  cases v <;> cases w <;> simp only [orderKey, List.cons.injEq, reduceCtorEq, and_true, true_and,
    Nat.reduceEqDiff, false_and] at h
  · exact congrArg abi (Abi.rank_injective h)
  · exact congrArg screenDensity (ScreenDensity.rank_injective h)
  · next l m =>
    have hchars := List.map_inj_right (fun _ _ => Char.toNat_inj.1) |>.1 h
    cases l; cases m
    exact congrArg (fun s => language ⟨s⟩) (String.toList_inj.1 hchars)
  · exact congrArg textureFormat (TextureFormat.rank_injective h)
  · next s t =>
    cases s; cases t
    exact congrArg (fun n => deviceTier ⟨n⟩) (UInt32.toNat_inj.1 h)

instance : Ord Value := ⟨compareOn orderKey⟩

instance : TransOrd Value := inferInstanceAs (TransCmp (compareOn orderKey))

instance : LawfulEqOrd Value where
  eq_of_compare h :=
    orderKey_injective (LawfulEqOrd.eq_of_compare (show compare _ _ = .eq from h))

end Value
end BundlePackaging
