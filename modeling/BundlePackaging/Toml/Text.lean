import BundlePackaging.Text.Hex
import BundlePackaging.Toml.Scan

/-!
# Quoted texts of a document

A text stands in double quotes, between which escapes are replaced, or in single quotes, between
which every character stands for itself.  With three quotes at each end it may run over several
lines; a line break right after the opening quotes does not count.

The scanners of this file work on what follows the opening quotes.  Each takes a bound on the number
of its steps, for which the length of the text is enough.

## Main definitions

* `escape` — the character that an escape stands for.
* `basicText`, `literalText`, `basicLines`, `literalLines` — the four kinds of text.
* `quotedText?` — a text of any kind, with its opening quotes.
-/

namespace BundlePackaging
namespace Toml

open Scan

/-- The character whose code has `count` hexadecimal digits, which are next. -/
def codeEscape (count : Nat) : Scan Char := do
  let digits ← (List.replicate count ()).mapM fun _ => do
    let some d := Hex.digitValue? (← next) | failure
    return d
  let code := digits.foldl (fun n d => 16 * n + d) 0
  if code.isValidChar then return Char.ofNat code else failure

/-- The character that an escape stands for, after its backslash. -/
def escape : Scan Char := do
  match ← next with
  | 'b' => return '\x08'
  | 't' => return '\t'
  | 'n' => return '\n'
  | 'f' => return '\x0c'
  | 'r' => return '\r'
  | 'e' => return '\x1b'
  | '"' => return '"'
  | '\\' => return '\\'
  | 'x' => codeEscape 2
  | 'u' => codeEscape 4
  | 'U' => codeEscape 8
  | _ => failure

/-! ### On one line -/

/-- A text in double quotes. -/
def basicText : Nat → Scan (List Char)
  | 0 => failure
  | steps + 1 => do
    match ← next with
    | '"' => return []
    | '\\' => return (← escape) :: (← basicText steps)
    | c => if isTextChar c then return c :: (← basicText steps) else failure

/-- A text in single quotes. -/
def literalText : Scan (List Char) := do
  let text ← takeWhile fun c => isTextChar c && c ≠ '\''
  expect '\''
  return text

/-! ### On several lines -/

/-- The rest of the run of quotes that closes a text of several lines, after its first three
quotes: up to two quotes more belong to the text. -/
def closingQuotes (quote : Char) : Scan (List Char) := do
  if ← takeIf [quote, quote] then return [quote, quote]
  if ← takeIf [quote] then return [quote]
  return []

/-- A line break, which is one or two characters. -/
def lineBreak? : Scan (Option (List Char)) := do
  if ← takeIf ['\n'] then return some ['\n']
  if ← takeIf ['\r', '\n'] then return some ['\r', '\n']
  return none

/-- Take the blanks and the line breaks after a backslash at the end of a line. -/
def foldedLines : Nat → Scan Unit
  | 0 => failure
  | steps + 1 => do
    blanks
    if (← lineBreak?).isSome then foldedLines steps

/-- Whether only blanks stand between here and the end of the line. -/
def atEndOfLine : Scan Bool := do
  match (← get).dropWhile isBlank with
  | '\n' :: _ => return true
  | '\r' :: '\n' :: _ => return true
  | _ => return false

/-- A text in three double quotes. -/
def basicLines : Nat → Scan (List Char)
  | 0 => failure
  | steps + 1 => do
    if ← takeIf ['"', '"', '"'] then return ← closingQuotes '"'
    if let some eol ← lineBreak? then return eol ++ (← basicLines steps)
    match ← next with
    | '\\' =>
      if ← atEndOfLine then
        foldedLines steps
        basicLines steps
      else return (← escape) :: (← basicLines steps)
    | c => if isTextChar c then return c :: (← basicLines steps) else failure

/-- A text in three single quotes. -/
def literalLines : Nat → Scan (List Char)
  | 0 => failure
  | steps + 1 => do
    if ← takeIf ['\'', '\'', '\''] then return ← closingQuotes '\''
    if let some eol ← lineBreak? then return eol ++ (← literalLines steps)
    let c ← next
    if isTextChar c then return c :: (← literalLines steps) else failure

/-! ### Of any kind -/

/-- A text on one line, with its opening quote. -/
def lineText? (steps : Nat) : Scan (Option String) := do
  if ← takeIf ['"'] then return some (String.ofList (← basicText steps))
  if ← takeIf ['\''] then return some (String.ofList (← literalText))
  return none

/-- A text of any kind, with its opening quotes. -/
def quotedText? (steps : Nat) : Scan (Option String) := do
  if ← takeIf ['"', '"', '"'] then
    let _ ← lineBreak?
    return some (String.ofList (← basicLines steps))
  if ← takeIf ['\'', '\'', '\''] then
    let _ ← lineBreak?
    return some (String.ofList (← literalLines steps))
  lineText? steps

end Toml
end BundlePackaging
