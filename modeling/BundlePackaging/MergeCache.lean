import BundlePackaging.CodeSegment
import BundlePackaging.Order.SortedSet

/-!
# The cache of renumbered code segments

Most code lies in master fragments, so many shards of a run have the same code segments.  Their
renumbering is kept under a key that depends on which modules contribute which contents at which
paths, and on nothing else.  A request looks the key up; only if nothing is kept under it does it
compute the renumbering and keep it.

## Main definitions

* `KeyPart`, `keyText`, `MergeKey` — the key of a list of segments.
* `MergeCache` — the kept results and the counters.
* `MergeCache.lookUp?`, `MergeCache.fill`, `MergeCache.getOrMerge` — a request.

## Main results

* `MergeCache.lookUp?_fill` — filling a key changes what is kept under that key alone.
-/

namespace BundlePackaging

open Std

/-! ### Keys -/

/-- What a segment adds to the key. -/
structure KeyPart where
  /-- The module that contributes the segment. -/
  module : String
  /-- The path of the segment in the module. -/
  path : EntryPath
  /-- The digest of the content. -/
  digest : Digest
  deriving DecidableEq

namespace KeyPart

/-- Parts are ordered by module, then by path, then by digest. -/
def order : KeyPart → KeyPart → Ordering :=
  compareLex (compareOn module) (compareLex (compareOn path) (compareOn digest))

instance : Ord KeyPart := ⟨order⟩

instance : TransOrd KeyPart :=
  inferInstanceAs (TransCmp (compareLex (compareOn module)
    (compareLex (compareOn path) (compareOn digest))))

instance : LawfulEqOrd KeyPart where
  eq_of_compare {a b} h := by
    obtain ⟨h₁, h₂⟩ := compareLex_eq_eq.1 (show order a b = .eq from h)
    obtain ⟨h₂, h₃⟩ := compareLex_eq_eq.1 h₂
    cases a; cases b
    congr
    · exact LawfulEqOrd.eq_of_compare h₁
    · exact LawfulEqOrd.eq_of_compare h₂
    · exact LawfulEqOrd.eq_of_compare h₃

/-- The part of a segment. -/
def ofSegment (s : CodeSegment) : KeyPart := ⟨s.module, s.entry.path, s.digest⟩

/-- The bytes of a text in UTF-8. -/
def textBytes (s : String) : List UInt8 := s.toList.flatMap String.utf8EncodeChar

/-- The bytes of a part: module and path, each ended by a zero byte, and the digest. -/
def bytes (p : KeyPart) : List UInt8 :=
  textBytes p.module ++ 0 :: (textBytes p.path.text ++ 0 :: p.digest.bytes)

end KeyPart

/-- The bytes of which the key of a list of segments is the digest: their parts in order, each
once. -/
def keyText (segments : List CodeSegment) : List UInt8 :=
  (SortedSet.ofList (segments.map KeyPart.ofSegment)).toList.flatMap KeyPart.bytes

/-- A key of the cache. -/
structure MergeKey where
  /-- The digest of the bytes that the segments give. -/
  digest : Digest
  deriving DecidableEq, Inhabited

/-- The key of a list of segments. -/
def MergeKey.ofSegments (segments : List CodeSegment) : MergeKey := ⟨.ofContent (keyText segments)⟩

/-! ### The cache -/

/-- The renumberings of a run that are kept, and how often a request found one. -/
structure MergeCache where
  /-- The entries kept under each key, those kept last in front. -/
  kept : List (MergeKey × List Entry) := []
  /-- How many requests found their key. -/
  hits : Nat := 0
  /-- How many requests did not find their key. -/
  misses : Nat := 0
  deriving DecidableEq, Inhabited

/-- How a request ended. -/
inductive CacheAnswer where
  /-- The key was there. -/
  | hit
  /-- The key was not there and has been filled. -/
  | miss
  deriving DecidableEq, Repr

namespace MergeCache

/-- The cache at the start of a run. -/
def empty : MergeCache := {}

/-- How many keys have entries kept under them. -/
def size (c : MergeCache) : Nat := c.kept.length

/-- The entries kept under a key. -/
def lookUp? (c : MergeCache) (key : MergeKey) : Option (List Entry) := c.kept.lookup key

/-- The cache after a request that found its key. -/
def countHit (c : MergeCache) : MergeCache := { c with hits := c.hits + 1 }

/-- The cache after a request that did not find its key and keeps `entries` under it. -/
def fill (c : MergeCache) (key : MergeKey) (entries : List Entry) : MergeCache :=
  { c with kept := (key, entries) :: c.kept, misses := c.misses + 1 }

theorem lookUp?_fill (c : MergeCache) (key k : MergeKey) (entries : List Entry) :
    (c.fill key entries).lookUp? k = if k = key then some entries else c.lookUp? k := by
  rw [lookUp?, fill, List.lookup_cons]
  by_cases h : k = key
  · simp [h]
  · simp [beq_eq_false_iff_ne.2 h, h, lookUp?]

/-- Answer a request: the entries kept under the key, or else those that `merge` gives, which are
kept then. -/
def getOrMerge (c : MergeCache) (key : MergeKey) (merge : Unit → List Entry) :
    List Entry × CacheAnswer × MergeCache :=
  match c.lookUp? key with
  | some entries => (entries, .hit, c.countHit)
  | none =>
    let entries := merge ()
    (entries, .miss, c.fill key entries)

end MergeCache
end BundlePackaging
