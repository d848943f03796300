import BundlePackaging.Digest.Sha256
import BundlePackaging.Text.Hex

/-!
# Content digests

Two contents count as the same when their SHA-256 digests are equal.  A digest has 32 bytes, is
ordered by them, and is shown either in full or, in log lines, by its first 8 bytes.

## Main definitions

* `Digest` — the digests, with `Digest.ofContent` and `Digest.ofBytes?`.
-/

namespace BundlePackaging

open Std

/-- The SHA-256 digest of a content. -/
structure Digest where
  /-- The bytes, first to last. -/
  bytes : List UInt8
  /-- A digest has 256 bits. -/
  length_bytes : bytes.length = 32
  deriving DecidableEq

namespace Digest

@[ext] theorem ext {d e : Digest} (h : d.bytes = e.bytes) : d = e := by
  cases d; cases e; cases h; rfl

/-- The digest of some bytes. -/
def ofContent (content : List UInt8) : Digest := ⟨Sha256.hash content, Sha256.length_hash content⟩

instance : Inhabited Digest := ⟨ofContent []⟩

/-- The digest with the given bytes, if there are 32 of them. -/
def ofBytes? (bytes : List UInt8) : Option Digest :=
  if h : bytes.length = 32 then some ⟨bytes, h⟩ else none

@[simp] theorem ofBytes?_bytes (d : Digest) : ofBytes? d.bytes = some d := by
  simp [ofBytes?, d.length_bytes]

/-- All 64 digits of the digest. -/
def hex (d : Digest) : String := Hex.encode d.bytes

/-- The first 16 digits, by which log lines name a content. -/
def shortHex (d : Digest) : String := Hex.encode (d.bytes.take 8)

/-- The form in which log lines show a digest. -/
def brief (d : Digest) : String := "ContentDigest(" ++ d.shortHex ++ ")"

instance : Ord Digest := ⟨compareOn bytes⟩

instance : TransOrd Digest := inferInstanceAs (TransCmp (compareOn bytes))

instance : LawfulEqOrd Digest where
  eq_of_compare h := ext (LawfulEqOrd.eq_of_compare (show compare _ _ = .eq from h))

end Digest
end BundlePackaging
