import BundlePackaging.Entry
import BundlePackaging.Order.Firsts
import BundlePackaging.Order.StableSort

/-!
# Code segments

Every module numbers its code segments on its own; a package needs one sequence without gaps.  The
segments of a shard are listed module by module, in each module by number, repeated contents are
left out, and the rest is numbered from 1.

## Main definitions

* `CodeSegment` — a code segment that a module contributes.
* `renumber` — the entries of the segments in their new numbering.
-/

namespace BundlePackaging

/-- A code segment that a module contributes to a shard. -/
structure CodeSegment where
  /-- The name of the module. -/
  module : String
  /-- The position of the module in the order of modules. -/
  position : Nat
  /-- The number of the segment in its module. -/
  index : Nat
  /-- The entry of the segment. -/
  entry : Entry
  /-- The digest of the entry's content. -/
  digest : Digest
  deriving DecidableEq, Inhabited

/-- Whether a segment may stand in front of another: by module first, then by number. -/
def CodeSegment.precedes (a b : CodeSegment) : Bool :=
  a.position < b.position || (a.position = b.position && a.index ≤ b.index)

/-- The segments of which a package consists, in order. -/
def orderedSegments (segments : List CodeSegment) : List CodeSegment :=
  firstsBy CodeSegment.digest (sortBy CodeSegment.precedes segments)

/-- The entries of the segments of a package, numbered from 1.  Numbers have 32 bits. -/
def renumber (segments : List CodeSegment) : List Entry :=
  (orderedSegments segments).zipIdx.map fun s =>
    s.1.entry.moveTo (.dex ((s.2 + 1) % UInt32.size))

end BundlePackaging
