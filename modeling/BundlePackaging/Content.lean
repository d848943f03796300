import BundlePackaging.Digest
import BundlePackaging.Disk.Flat
import BundlePackaging.Text.Escaped

/-!
# Contents

A content is a handle to the bytes of an entry.  The bytes are held in memory or lie in a file; the
size of a file is looked up once, when the handle is made, its bytes are read whenever they are
needed, and its digest is computed at most once: every copy of a handle shares the digest that the
first successful computation stored, whatever happens to the file afterwards.

Handles made apart are different handles even when they stand for the same bytes; each carries a
number of its own.

## Main definitions

* `Content` — the handles, with `Content.size` and `Content.backingFile?`.
* `Storage` — the files together with the digests stored so far.
* `Content.read`, `Content.digest` — the bytes and the digest of a content.

## Main results

* `Storage.digest?_record` — a stored digest is never replaced.
-/

namespace BundlePackaging

/-! ### Handles -/

/-- Where the bytes of a content are. -/
inductive Source where
  /-- The bytes are in memory. -/
  | memory (bytes : List UInt8)
  /-- The bytes are in a file, which had this size when the handle was made. -/
  | file (name : String) (size : Nat)
  deriving DecidableEq, Inhabited

/-- A handle to the bytes of an entry.  Copies of a handle are equal, handles made apart are not. -/
structure Content where
  /-- The number that tells the handle from those made apart. -/
  id : Nat
  /-- Where the bytes are. -/
  source : Source
  deriving DecidableEq, Inhabited

namespace Content

/-- A content without bytes. -/
def empty : Content := ⟨0, .memory []⟩

/-- The number of bytes, for a file as it was when the handle was made. -/
def size (c : Content) : Nat :=
  match c.source with
  | .memory bytes => bytes.length
  | .file _ size => size

/-- The file that the bytes are in, unless they are in memory. -/
def backingFile? (c : Content) : Option String :=
  match c.source with
  | .memory _ => none
  | .file name _ => some name

/-- The form in which a content is shown for inspection. -/
def describe (c : Content) : String :=
  match c.source with
  | .memory bytes => "EntryContent \x7b size: " ++ toString bytes.length ++ " \x7d"
  | .file name size =>
    "EntryContent \x7b path: " ++ Escaped.quote name ++ ", size: " ++ toString size ++ " \x7d"

end Content

/-! ### Storage -/

/-- The files, the digests stored so far, and the number of the next handle. -/
structure Storage where
  /-- The files. -/
  disk : Disk := .empty
  /-- The digest stored for a content, if one is. -/
  digest? : Content → Option Digest := fun _ => none
  /-- The number that the next handle gets; number 0 is the empty content's. -/
  nextId : Nat := 1

namespace Storage

instance : Inhabited Storage := ⟨{}⟩

/-- Make a handle to bytes in memory. -/
def hold (bytes : List UInt8) (s : Storage) : Content × Storage :=
  (⟨s.nextId, .memory bytes⟩, { s with nextId := s.nextId + 1 })

/-- Make a handle to what a name leads to, which has to have a size.  A handle to a directory can be
made as well, though its bytes cannot be read. -/
def openFile (name : String) (s : Storage) : Except FileError (Content × Storage) :=
  match s.disk.size name with
  | .error e => .error e
  | .ok size => .ok (⟨s.nextId, .file name size⟩, { s with nextId := s.nextId + 1 })

/-- Store the digest `d` for a content, unless a digest is stored already; the answer is the digest
that is stored then. -/
def record (c : Content) (d : Digest) (s : Storage) : Digest × Storage :=
  match s.digest? c with
  | some e => (e, s)
  | none => (d, { s with digest? := fun x => if x = c then some d else s.digest? x })

theorem digest?_record {c x : Content} {d e : Digest} {s : Storage} (h : s.digest? x = some e) :
    (s.record c d).2.digest? x = some e := by
  rw [record]
  split
  · exact h
  · next hc =>
    by_cases hx : x = c
    · rw [hx, hc] at h
      exact absurd h (by simp)
    · simpa [hx] using h

end Storage

/-! ### Reading -/

namespace Content

/-- The bytes of a content, read now. -/
def read (c : Content) (s : Storage) : Except FileError (List UInt8) :=
  match c.source with
  | .memory bytes => .ok bytes
  | .file name _ => s.disk.read name

/-- The digest of a content: the one stored, or else that of the bytes read now, which is stored.
When the bytes cannot be read nothing changes. -/
def digest (c : Content) (s : Storage) : Except FileError Digest × Storage :=
  match s.digest? c with
  | some d => (.ok d, s)
  | none =>
    match c.read s with
    | .error e => (.error e, s)
    | .ok bytes =>
      let (d, s') := s.record c (.ofContent bytes)
      (.ok d, s')

end Content
end BundlePackaging
