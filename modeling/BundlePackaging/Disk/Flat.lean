import BundlePackaging.Disk
import BundlePackaging.Text.Components

/-!
# Files side by side

One of the ways in which names can lead to files: there are files side by side in one directory, in
the directories around it and in the outermost one, where names begin with a slash, and none of these
has a directory in it that could be named.  A name leads to its file by way of components that stay
where they are, so that `f`, `./f` and `.//f` are names of one file.

## Main definitions

* `FileTarget.inFlatDirectory` — where a file name leads there.
* `Disk.empty` — such a disk without files.

## Main results

* `FileTarget.ofComponents_of_stays` — components that stay in the directory may be left out.
-/

namespace BundlePackaging

namespace FileTarget

/-- The greatest number of bytes in a file name. -/
def maxNameBytes : Nat := 4095

/-- The greatest number of bytes in a component of a file name. -/
def maxComponentBytes : Nat := 255

/-- What leads out of the directory that `base` leads to; nothing leads out of the outermost one. -/
def outOf (base : List Char) : List Char :=
  if base = ['/'] then base else base ++ ['.', '.', '/']

/-- Where the components of a file name lead, seen from the directory that `base` leads to.  An
empty component and a single dot stay in the directory, and two dots go to the one around it; behind
any other component slashes alone say that it is a directory.  The key of a file is the shortest of
its names. -/
def ofComponents (directorySize : Nat) (base : List Char) : List (List Char) → FileTarget
  | [] => directory directorySize
  | part :: rest =>
    let tooLong := maxComponentBytes < (String.ofList part).utf8ByteSize
    let key := String.ofList (base ++ part)
    if part = [] ∨ part = ['.'] then ofComponents directorySize base rest
    else if part = ['.', '.'] then ofComponents directorySize (outOf base) rest
    else if rest = [] then if tooLong then nowhere .nameTooLong else file key
    else if rest.all List.isEmpty then asDirectory (if tooLong then none else some key)
    else if tooLong then nowhere .nameTooLong else behind key

/-- Components that stay in the directory may be left out. -/
theorem ofComponents_of_stays {part : List Char} (directorySize : Nat) (base : List Char)
    (rest : List (List Char)) (h : part = [] ∨ part = ['.']) :
    ofComponents directorySize base (part :: rest) = ofComponents directorySize base rest := by
  rw [ofComponents, if_pos h]

/-- Where a file name leads if no directory can be named. -/
def inFlatDirectory (directorySize : Nat) (name : String) : FileTarget :=
  if '\x00' ∈ name.toList then nowhere .invalidName
  else if name = "" then nowhere .notFound
  else if maxNameBytes < name.utf8ByteSize then nowhere .nameTooLong
  else
    let base := if name.toList.head? = some '/' then ['/'] else []
    ofComponents directorySize base (pathComponents name.toList)

end FileTarget

namespace Disk

/-- A disk without files on which no directory can be named; directories count for 4096 bytes. -/
def empty : Disk := ⟨fun _ => none, FileTarget.inFlatDirectory 4096⟩

instance : Inhabited Disk := ⟨empty⟩

end Disk
end BundlePackaging
