/-!
# Scanning text

A scanner takes characters from the front of a text or fails.  Here are the scanners on which the
readers of a configuration document are built.

## Main definitions

* `Scan` — the scanners.
* `Scan.next`, `Scan.peek?`, `Scan.expect`, `Scan.takeWhile` — the steps.
* `Scan.blanks`, `Scan.filler`, `Scan.endOfLine` — the parts of a text that carry no value.
-/

namespace BundlePackaging
namespace Toml

/-- A scanner: it takes characters from the front of a text or fails. -/
abbrev Scan (α : Type) : Type := StateT (List Char) Option α

/-! ### Characters -/

/-- Whether a character separates words on a line. -/
def isBlank (c : Char) : Bool := c = ' ' || c = '\t'

/-- Whether a character may stand in a comment or in a quoted text: everything but the control
characters, of which the tab alone is allowed. -/
def isTextChar (c : Char) : Bool := c = '\t' || (0x20 ≤ c.toNat && c.toNat ≠ 0x7f)

/-- Whether a character may stand in a key without quotes. -/
def isKeyChar (c : Char) : Bool := c.isAlphanum || c = '_' || c = '-'

/-- Skip blanks, ends of lines and comments.  Where a comment holds a character that it must not
hold, skipping stops in front of it. -/
def skipFiller (inComment : Bool) : List Char → List Char
  | [] => []
  | '\n' :: cs => skipFiller false cs
  | '\r' :: '\n' :: cs => skipFiller false cs
  | c :: cs =>
    if inComment then
      if isTextChar c then skipFiller true cs else c :: cs
    else if isBlank c then skipFiller false cs
    else if c = '#' then skipFiller true cs
    else c :: cs

namespace Scan

/-- Take one character. -/
def next : Scan Char
  | [] => none
  | c :: cs => some (c, cs)

/-- Look at the next character without taking it. -/
def peek? : Scan (Option Char) := fun cs => some (cs.head?, cs)

/-- Take the given character. -/
def expect (c : Char) : Scan Unit := do
  if (← next) ≠ c then failure

/-- Take the given text if it is next. -/
def takeIf (text : List Char) : Scan Bool := fun cs =>
  match text.isPrefixOf? cs with
  | some rest => some (true, rest)
  | none => some (false, cs)

/-- Take characters as long as they satisfy `p`. -/
def takeWhile (p : Char → Bool) : Scan (List Char) := fun cs =>
  some (cs.takeWhile p, cs.dropWhile p)

/-- Take blanks. -/
def blanks : Scan Unit := fun cs => some ((), cs.dropWhile isBlank)

/-- Take blanks, ends of lines and comments. -/
def filler : Scan Unit := fun cs => some ((), skipFiller false cs)

/-- Take what may follow a statement on its line, and the end of the line. -/
def endOfLine : Scan Unit := do
  blanks
  if ← takeIf ['#'] then
    let _ ← takeWhile isTextChar
  match ← get with
  | [] => return ()
  | '\n' :: cs => set cs
  | '\r' :: '\n' :: cs => set cs
  | _ => failure

end Scan
end Toml
end BundlePackaging
