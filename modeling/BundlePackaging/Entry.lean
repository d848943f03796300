import BundlePackaging.Fault

/-!
# Entries

An entry is a file of a module or of a package: a path, a content, and whether the content is
stored compressed.

## Main definitions

* `Entry` — the entries.
* `Reading` — computations that read contents, store digests and may find a content unreadable.
* `Entry.digest`, `Entry.sameContent` — the digest of an entry, and whether two entries have the
  same bytes.
-/

namespace BundlePackaging

/-- How an entry is stored in the finished package. -/
inductive Compression where
  /-- The content is compressed. -/
  | compressed
  /-- The content is stored as it is. -/
  | uncompressed
  deriving DecidableEq, Repr, Inhabited

/-- A file of a module or of a package. -/
structure Entry where
  /-- Where the file is. -/
  path : EntryPath
  /-- The bytes of the file. -/
  content : Content
  /-- How the file is stored. -/
  compression : Compression := .compressed
  deriving DecidableEq, Inhabited

/-- A computation that reads contents.  Digests that it stores stay stored when it fails. -/
abbrev Reading (α : Type) : Type := ExceptT Fault (StateM Storage) α

namespace Entry

/-- The number of bytes. -/
def size (e : Entry) : Nat := e.content.size

/-- The entry at another path. -/
def moveTo (e : Entry) (path : EntryPath) : Entry := { e with path }

/-- The fault that the entry's content cannot be read. -/
def unreadable (e : Entry) (cause : FileError) : Fault :=
  .unreadableContent e.path (e.content.backingFile?.getD "") cause

/-- The bytes of the entry, read now. -/
def read (e : Entry) (s : Storage) : Except Fault (List UInt8) :=
  (e.content.read s).mapError e.unreadable

/-- The digest of the entry's content. -/
def digest (e : Entry) : Reading Digest := fun s =>
  let (answer, s') := e.content.digest s
  (answer.mapError e.unreadable, s')

/-- Whether two entries have the same bytes.  Copies of one handle do and contents of different
sizes do not; otherwise the digests decide, that of `a` being asked for first. -/
def sameContent (a b : Entry) : Reading Bool := do
  if a.content = b.content then return true
  if a.size ≠ b.size then return false
  let d ← a.digest
  let e ← b.digest
  return d = e

end Entry
end BundlePackaging
