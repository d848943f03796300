import BundlePackaging.Toml.Scalar
import BundlePackaging.Toml.Table
import BundlePackaging.Toml.Text

/-!
# Configuration documents

A document is a list of statements, one on a line: headers, which open a table, and assignments,
which write a value into the table that is open.

Line breaks and comments may stand everywhere between brackets except within a key.  Nested brackets
are read up to a fixed depth, and keys up to a fixed number of parts.  The scanners take a bound on
the number of their steps, which in `parse?` comes from the length of the document.

## Main definitions

* `value`, `arrayElements`, `inlineEntries` — the scanners of values.
* `Statement`, `statements` — the statements of a document.
* `parse?` — the entries of a document.
-/

namespace BundlePackaging
namespace Toml

open Scan

/-! ### Keys -/

/-- One part of a dotted key. -/
def simpleKey (steps : Nat) : Scan String := do
  if let some text ← lineText? steps then return text
  let name ← takeWhile isKeyChar
  if name.isEmpty then failure
  return String.ofList name

/-- How many parts a dotted key may have. -/
def keyLimit : Nat := 80

/-- The parts of a dotted key that has room for the given number of them. -/
def keyParts (steps : Nat) : Nat → Scan (List String)
  | 0 => failure
  | room + 1 => do
    let first ← simpleKey steps
    blanks
    if ← takeIf ['.'] then
      blanks
      return first :: (← keyParts steps room)
    return [first]

/-- A dotted key, whose dots stand on one line with its parts. -/
def dottedKey (steps : Nat) : Scan (List String) := keyParts steps keyLimit

/-! ### Values -/

/-- How deep brackets may be nested. -/
def depthLimit : Nat := 80

/-- Whether a character may stand in a scalar. -/
def isScalarChar (c : Char) : Bool :=
  c.isAlphanum || c = '_' || c = '-' || c = '+' || c = '.' || c = ':'

/-- A scalar.  Between a date and a time of day there may be one space. -/
def scalar : Scan Value := do
  let word ← takeWhile isScalarChar
  match ← get with
  | ' ' :: c :: cs =>
    if isDate word && c.isDigit then
      set (c :: cs)
      let time ← takeWhile isScalarChar
      let some v := scalar? (word ++ ' ' :: time) | failure
      return v
    let some v := scalar? word | failure
    return v
  | _ =>
    let some v := scalar? word | failure
    return v

mutual

/-- A value. -/
def value (depth : Nat) : Nat → Scan Value
  | 0 => failure
  | steps + 1 => do
    if let some text ← quotedText? steps then return .string text
    match depth with
    | 0 =>
      match ← peek? with
      | some '[' | some '\x7b' => failure
      | _ => scalar
    | depth + 1 =>
      if ← takeIf ['['] then
        filler
        return .array (← arrayElements depth steps)
      if ← takeIf ['\x7b'] then
        filler
        return .table (entryValues (← inlineEntries depth [] steps))
      scalar

/-- The elements of an array up to its closing bracket. -/
def arrayElements (depth : Nat) : Nat → Scan (List Value)
  | 0 => failure
  | steps + 1 => do
    if ← takeIf [']'] then return []
    let v ← value depth steps
    filler
    if ← takeIf [','] then
      filler
      return v :: (← arrayElements depth steps)
    expect ']'
    return [v]

/-- The entries of an inline table up to its closing brace, after those of `es`. -/
def inlineEntries (depth : Nat) (es : Entries) : Nat → Scan Entries
  | 0 => failure
  | steps + 1 => do
    if ← takeIf ['\x7d'] then return es
    let key ← dottedKey steps
    filler
    expect '='
    filler
    let v ← value depth steps
    let some es := assign v key es | failure
    filler
    if ← takeIf [','] then
      filler
      return ← inlineEntries depth es steps
    expect '\x7d'
    return es

end

/-! ### Statements -/

/-- A statement of a document. -/
inductive Statement where
  /-- Open the table of a header. -/
  | table (path : List String)
  /-- Add a table to the series of a header. -/
  | series (path : List String)
  /-- Write a value into the open table. -/
  | assign (key : List String) (v : Value)

/-- A statement, up to the end of its line. -/
def statement (steps : Nat) : Scan Statement := do
  if ← takeIf ['[', '['] then
    blanks
    let path ← dottedKey steps
    unless ← takeIf [']', ']'] do failure
    endOfLine
    return .series path
  if ← takeIf ['['] then
    blanks
    let path ← dottedKey steps
    expect ']'
    endOfLine
    return .table path
  let key ← dottedKey steps
  expect '='
  blanks
  let v ← value depthLimit steps
  endOfLine
  return .assign key v

/-- The statements of a document. -/
def statements : Nat → Scan (List Statement)
  | 0 => failure
  | steps + 1 => do
    filler
    if (← peek?).isNone then return []
    return (← statement steps) :: (← statements steps)

/-! ### Documents -/

/-- A document in the making: what has been written, and the header of the open table. -/
structure Draft where
  /-- What has been written. -/
  entries : Entries := []
  /-- The header of the open table. -/
  header : List String := []

/-- Carry out a statement. -/
def Draft.add (d : Draft) : Statement → Option Draft
  | .table path => (openTable path d.entries).map (⟨·, path⟩)
  | .series path => (openSeries path d.entries).map (⟨·, path⟩)
  | .assign key v => (inTable (Toml.assign v key) d.header d.entries).map (⟨·, d.header⟩)

/-- The entries of a document, unless it is not well formed.  A byte order mark in front of it does
not count. -/
def parse? (text : String) : Option (List (String × Value)) := do
  let chars :=
    match text.toList with
    | '\uFEFF' :: cs => cs
    | cs => cs
  let (statements, _) ← (statements (2 * chars.length + 2)).run chars
  let draft ← statements.foldlM Draft.add {}
  return entryValues draft.entries

end Toml
end BundlePackaging
