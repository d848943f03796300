import BundlePackaging.Order.SortedSet
import BundlePackaging.Text.Components

/-!
# Entry paths

The path of a file inside a module, relative to the module's root.  A path tells what the file is:
code segments are `dex/classes.dex`, `dex/classes2.dex` and so on, native libraries are the `.so`
files below `lib`, and a directory may carry a suffix `#key_value` that names the device
configuration its files are for.

## Main definitions

* `EntryPath.ofText` — the path that a text names.
* `EntryPath.dex`, `EntryPath.dexIndex?` — the path of a code segment, and its number read back.
* `EntryPath.isNativeLibrary` — whether the file is a native library.
* `EntryPath.withoutSuffix` — the path with the suffixes of one key cut off its directories.
-/

namespace BundlePackaging

open Std

/-! ### Text -/

/-- The part of a text in front of the first place where `marker` stands, the whole text if it
stands nowhere. -/
def cutAt (marker : List Char) : List Char → List Char
  | [] => []
  | c :: cs => if marker.isPrefixOf (c :: cs) then [] else c :: cutAt marker cs

/-- Apply `f` to every component but the last, which is the file's own name. -/
def mapDirectories (f : List Char → List Char) : List (List Char) → List (List Char)
  | [] => []
  | [file] => [file]
  | d :: e :: rest => f d :: mapDirectories f (e :: rest)

theorem cutAt_prefix (marker cs : List Char) : cutAt marker cs <+: cs := by
  induction cs with
  | nil => exact List.prefix_rfl
  | cons c cs ih =>
    rw [cutAt]
    split
    · exact List.nil_prefix
    · exact List.cons_prefix_cons.2 ⟨rfl, ih⟩

@[simp] theorem length_mapDirectories (f : List Char → List Char) (ds : List (List Char)) :
    (mapDirectories f ds).length = ds.length := by
  fun_induction mapDirectories f ds with
  | case1 => rfl
  | case2 => rfl
  | case3 d e rest ih => rw [List.length_cons, ih]; rfl

/-! ### Paths -/

/-- The path of an entry, relative to the root of its module. -/
structure EntryPath where
  /-- The text of the path. -/
  text : String
  deriving DecidableEq, Inhabited

namespace EntryPath

@[ext] theorem ext {p q : EntryPath} (h : p.text = q.text) : p = q := by
  cases p; cases q; cases h; rfl

instance : Ord EntryPath := ⟨compareOn text⟩

instance : TransOrd EntryPath := inferInstanceAs (TransCmp (compareOn text))

instance : LawfulEqOrd EntryPath where
  eq_of_compare h := ext (LawfulEqOrd.eq_of_compare (show compare _ _ = .eq from h))

/-- The characters of the path. -/
def chars (p : EntryPath) : List Char := p.text.toList

/-- The path that a text names: one slash at its front says the same as none. -/
def ofText (s : String) : EntryPath :=
  match s.toList with
  | '/' :: rest => ⟨String.ofList rest⟩
  | _ => ⟨s⟩

/-- Whether the path lies below the given top-level directory. -/
def isBelow (p : EntryPath) (dir : String) : Bool :=
  match dir.toList.isPrefixOf? p.chars with
  | some ('/' :: _) => true
  | _ => false

/-- Whether the entry is a native library. -/
def isNativeLibrary (p : EntryPath) : Bool := p.isBelow "lib" && ".so".toList.isSuffixOf p.chars

/-! ### Code segments -/

/-- The path of the code segment with number `n`; the first segment's path has no number. -/
def dex (n : Nat) : EntryPath :=
  if n ≤ 1 then ⟨"dex/classes.dex"⟩
  else ⟨String.ofList ("dex/classes".toList ++ Nat.toDigits 10 n ++ ".dex".toList)⟩

/-- The number that stands in a code segment's path: none stands for 1, and a written number is at
least 2, has no zero in front and fits in 32 bits. -/
def segmentNumber? (digits : List Char) : Option Nat :=
  match digits with
  | [] => some 1
  | d :: _ =>
    let n := Nat.ofDigitChars 10 digits 0
    if d ≠ '0' ∧ digits.all Char.isDigit ∧ 2 ≤ n ∧ n < UInt32.size then some n else none

/-- The number of the code segment at this path, if the entry is one. -/
def dexIndex? (p : EntryPath) : Option Nat := do
  let rest ← "dex/classes".toList.isPrefixOf? p.chars
  let digits ← ".dex".toList.isSuffixOf? rest
  segmentNumber? digits

/-- Whether the entry is a code segment. -/
def isDex (p : EntryPath) : Bool := p.dexIndex?.isSome

/-! ### Directory suffixes -/

/-- What opens the suffix that names a value for `key`. -/
def suffixMarker (key : String) : List Char := '#' :: key.toList ++ ['_']

/-- The path with every directory cut off where a suffix for `key` begins.  The file's own name
stays as it is. -/
def withoutSuffix (p : EntryPath) (key : String) : EntryPath :=
  let directories := mapDirectories (cutAt (suffixMarker key)) (pathComponents p.chars)
  ⟨String.ofList (['/'].intercalate directories)⟩

end EntryPath
end BundlePackaging
