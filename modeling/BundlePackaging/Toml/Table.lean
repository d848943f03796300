import BundlePackaging.Toml.Value

/-!
# Tables in the making

A table of a document comes together from statements that may lie far apart.  No value is written
twice, and who may still add to a table depends on how it came to be: a table with a header of its
own is not opened again, a table that dotted keys made takes no header, and a value in brackets
takes nothing more.

## Main definitions

* `Node` — what a key stands for while the document is read, and `Node.admits`, which says where a
  dotted key may go on.
* `assign` — write a value under a dotted key.
* `openTable`, `openSeries` — follow the header of a table, or of a table in a series.
* `inTable` — change the table that a header has opened.
* `Node.value` — the value in the end.
-/

namespace BundlePackaging
namespace Toml

/-- How a table came to be. -/
inductive Origin where
  /-- By a header of its own. -/
  | header
  /-- By the header of a table inside it. -/
  | implied
  /-- By a dotted key. -/
  | dotted
  deriving DecidableEq, Repr

/-- What a key stands for while the document is read. -/
inductive Node where
  /-- A value. -/
  | leaf (v : Value)
  /-- A table. -/
  | branch (origin : Origin) (entries : List (String × Node))
  /-- A series of tables with one header, the last in front. -/
  | series (tables : List (List (String × Node)))

/-- The entries of a table while the document is read. -/
abbrev Entries : Type := List (String × Node)

/-- Replace what a key stands for, or give up. -/
def alter (k : String) (f : Option Node → Option Node) : Entries → Option Entries
  | [] => (f none).map fun n => [(k, n)]
  | (l, n) :: es =>
    if l = k then (f (some n)).map fun m => (l, m) :: es
    else (alter k f es).map ((l, n) :: ·)

/-- Change the entries of a table, in a series those of its last table. -/
def Node.inside (f : Entries → Option Entries) : Node → Option Node
  | .leaf _ => none
  | .branch origin es => (f es).map (.branch origin)
  | .series [] => none
  | .series (t :: ts) => (f t).map fun t' => .series (t' :: ts)

/-- Whether a dotted key may go on inside a node with `parts` further parts.  The value itself goes
into a table that dotted keys made; on the way there a key passes through every table but those with
a header of their own, which are not opened again. -/
def Node.admits : Node → (parts : Nat) → Bool
  | .branch .dotted _, _ => true
  | .branch .implied _, parts => parts ≠ 1
  | .series _, parts => parts ≠ 1
  | .branch .header _, _ => false
  | .leaf _, _ => false

/-- Write a value under a dotted key. -/
def assign (v : Value) : List String → Entries → Option Entries
  | [], _ => none
  | [k], es =>
    alter k (fun
      | none => some (.leaf v)
      | some _ => none) es
  | k :: ks, es =>
    alter k (fun
      | none => (assign v ks []).map (.branch .dotted)
      | some n => if n.admits ks.length then n.inside (assign v ks) else none) es

/-- Follow a header, whose last key `last` treats. -/
def followHeader (last : Option Node → Option Node) : List String → Entries → Option Entries
  | [], _ => none
  | [k], es => alter k last es
  | k :: ks, es =>
    alter k (fun
      | none => (followHeader last ks []).map (.branch .implied)
      | some n => n.inside (followHeader last ks)) es

/-- Open the table of a header.  It may be there already, but only by headers of tables inside
it. -/
def openTable : List String → Entries → Option Entries :=
  followHeader fun
    | none => some (.branch .header [])
    | some (.branch .implied sub) => some (.branch .header sub)
    | some _ => none

/-- Add a table to the series of a header. -/
def openSeries : List String → Entries → Option Entries :=
  followHeader fun
    | none => some (.series [[]])
    | some (.series ts) => some (.series ([] :: ts))
    | some _ => none

/-- Change the table that a header has opened, or the whole document in front of all headers. -/
def inTable (f : Entries → Option Entries) : List String → Entries → Option Entries
  | [], es => f es
  | k :: ks, es =>
    followHeader (fun n => n.bind (·.inside f)) (k :: ks) es

mutual

/-- The value of a node. -/
def Node.value : Node → Value
  | .leaf v => v
  | .branch _ es => .table (entryValues es)
  | .series ts => .array (tableValues ts).reverse

/-- The entries of a table with their values. -/
def entryValues : List (String × Node) → List (String × Value)
  | [] => []
  | (k, n) :: es => (k, n.value) :: entryValues es

/-- The values of a series of tables. -/
def tableValues : List (List (String × Node)) → List Value
  | [] => []
  | es :: ts => .table (entryValues es) :: tableValues ts

end

end Toml
end BundlePackaging
