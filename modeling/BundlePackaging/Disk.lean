/-!
# Files

A disk is a table of files together with the way in which names lead to them.  That way is for the
file system to say, so nothing is taken for granted about it: any name may lead to a file, several
names may lead to one file, and a name may lead to something that is no file, such as a directory, or
nowhere, in which case the error tells why.  Writing and deleting change the files and leave the way
in which names lead to them as it is; what else happens to a disk is a step to another disk.

## Main definitions

* `FileError` — why a file cannot be used.
* `FileTarget` — where a file name leads.
* `Disk` — the files, and where the names lead.
* `Disk.read`, `Disk.size`, `Disk.write`, `Disk.delete` — what is done with a file.

## Main results

* `Disk.size_of_file` — the size of a file is the number of its bytes.
* `Disk.read_write`, `Disk.read_write_of_ne` — what is read after a file is written.
* `Disk.read_delete`, `Disk.read_delete_of_ne` — what is read after a file is deleted.
-/

namespace BundlePackaging

/-! ### File names -/

/-- Why a file cannot be used. -/
inductive FileError where
  /-- There is no file of that name. -/
  | notFound
  /-- The name goes on behind a file as if it were a directory. -/
  | notADirectory
  /-- The name leads to a directory. -/
  | isADirectory
  /-- The name holds the character with code zero. -/
  | invalidName
  /-- The name, or a component of it, is longer than names may be. -/
  | nameTooLong
  /-- Anything else, by the name of the error. -/
  | other (name : String)
  deriving DecidableEq, Repr, Inhabited

/-- The name of the error. -/
def FileError.name : FileError → String
  | notFound => "NotFound"
  | notADirectory => "NotADirectory"
  | isADirectory => "IsADirectory"
  | invalidName => "InvalidInput"
  | nameTooLong => "InvalidFilename"
  | other name => name

/-- Where a file name leads.  A file is known by a key, which need not be one of its names. -/
inductive FileTarget where
  /-- To the file with this key, whether it is there or not. -/
  | file (key : String)
  /-- To the file with this key, or to one whose name is longer than names may be, as if it were a
  directory. -/
  | asDirectory (key? : Option String)
  /-- To something behind the file with this key, as if that were a directory. -/
  | behind (key : String)
  /-- To something that is no file, with its size and its bytes, or why there are none. -/
  | special (size : Except FileError Nat) (bytes : Except FileError (List UInt8))

namespace FileTarget

/-- To a directory, which has a size but no bytes. -/
def directory (size : Nat) : FileTarget := special (.ok size) (.error .isADirectory)

/-- Nowhere. -/
def nowhere (cause : FileError) : FileTarget := special (.error cause) (.error cause)

end FileTarget

/-! ### Disks -/

/-- The files, and where the names lead. -/
structure Disk where
  /-- The bytes of the file with a given key, if there is one. -/
  file? : String → Option (List UInt8)
  /-- Where a file name leads. -/
  target : String → FileTarget

namespace Disk

/-- Why there is no file where a name leads. -/
def absence (d : Disk) : FileTarget → FileError
  | .file _ => .notFound
  | .asDirectory none => .nameTooLong
  | .asDirectory (some key) => if (d.file? key).isSome then .notADirectory else .notFound
  | .behind key => if (d.file? key).isSome then .notADirectory else .notFound
  | .special _ (.error cause) => cause
  | .special _ (.ok _) => .other "PermissionDenied"

/-- The bytes where a name leads. -/
def read (d : Disk) (name : String) : Except FileError (List UInt8) :=
  match d.target name with
  | .file key =>
    match d.file? key with
    | some bytes => .ok bytes
    | none => .error .notFound
  | .special _ bytes => bytes
  | target => .error (d.absence target)

/-- The size of what a name leads to. -/
def size (d : Disk) (name : String) : Except FileError Nat :=
  match d.target name with
  | .special size _ => size
  | _ => (d.read name).map List.length

/-- The disk with other bytes in a file, or without the file. -/
def setFile (d : Disk) (key : String) (bytes? : Option (List UInt8)) : Disk :=
  { d with file? := fun k => if k = key then bytes? else d.file? k }

/-- The disk after a file is written, which need not have been there.  Directories are not made, and
what is no file is not written.  Writing that is cut short is a step to another disk instead. -/
def write (d : Disk) (name : String) (bytes : List UInt8) : Except FileError Disk :=
  match d.target name with
  | .file key => .ok (d.setFile key (some bytes))
  | .asDirectory _ => .error .isADirectory
  | target => .error (d.absence target)

/-- The disk after a file is deleted, which has to be there. -/
def delete (d : Disk) (name : String) : Except FileError Disk :=
  match d.target name with
  | .file key =>
    match d.file? key with
    | some _ => .ok (d.setFile key none)
    | none => .error .notFound
  | target => .error (d.absence target)

/-! ### What is read -/

variable {d d' : Disk} {name n key key' : String} {bytes : List UInt8}
  {bytes? : Option (List UInt8)}

theorem read_of_file (h : d.target name = .file key) :
    d.read name = match d.file? key with
      | some bytes => .ok bytes
      | none => .error .notFound := by
  rw [read, h]

/-- The size of a file is the number of its bytes. -/
theorem size_of_file (h : d.target name = .file key) :
    d.size name = (d.read name).map List.length := by
  rw [size, h]

theorem read_setFile (h : d.target name = .file key) :
    (d.setFile key bytes?).read name = match bytes? with
      | some bytes => .ok bytes
      | none => .error .notFound := by
  have hsame : (d.setFile key bytes?).file? key = bytes? := if_pos rfl
  rw [read_of_file (d := d.setFile key bytes?) h, hsame]

/-- All other files are left alone. -/
theorem read_setFile_of_ne (h : d.target name = .file key) (hne : key ≠ key') :
    (d.setFile key' bytes?).read name = d.read name := by
  have hsame : (d.setFile key' bytes?).file? key = d.file? key := if_neg hne
  rw [read_of_file (d := d.setFile key' bytes?) h, read_of_file h, hsame]

theorem write_eq_ok (h : d.write name bytes = .ok d') :
    ∃ key, d.target name = .file key ∧ d' = d.setFile key (some bytes) := by
  rw [write] at h
  split at h
  · next key hkey => exact ⟨key, hkey, (Except.ok.inj h).symm⟩
  all_goals cases h

theorem delete_eq_ok (h : d.delete name = .ok d') :
    ∃ key, d.target name = .file key ∧ d' = d.setFile key none := by
  rw [delete] at h
  split at h
  · next key hkey =>
    split at h
    · exact ⟨key, hkey, (Except.ok.inj h).symm⟩
    · cases h
  · cases h

/-- A written file is read under each of its names. -/
theorem read_write (h : d.write name bytes = .ok d') (hn : d.target n = d.target name) :
    d'.read n = .ok bytes := by
  obtain ⟨key, hkey, rfl⟩ := write_eq_ok h
  exact read_setFile (hn.trans hkey)

/-- Writing leaves all other files alone. -/
theorem read_write_of_ne (h : d.write name bytes = .ok d') (hkey : d.target n = .file key)
    (hn : d.target n ≠ d.target name) : d'.read n = d.read n := by
  obtain ⟨key', hkey', rfl⟩ := write_eq_ok h
  exact read_setFile_of_ne hkey fun e => hn (by rw [hkey, hkey', e])

/-- A deleted file is found under none of its names. -/
theorem read_delete (h : d.delete name = .ok d') (hn : d.target n = d.target name) :
    d'.read n = .error .notFound := by
  obtain ⟨key, hkey, rfl⟩ := delete_eq_ok h
  exact read_setFile (hn.trans hkey)

/-- Deleting leaves all other files alone. -/
theorem read_delete_of_ne (h : d.delete name = .ok d') (hkey : d.target n = .file key)
    (hn : d.target n ≠ d.target name) : d'.read n = d.read n := by
  obtain ⟨key', hkey', rfl⟩ := delete_eq_ok h
  exact read_setFile_of_ne hkey fun e => hn (by rw [hkey, hkey', e])

end Disk
end BundlePackaging
