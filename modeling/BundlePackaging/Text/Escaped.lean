import BundlePackaging.Text.Hidden

/-!
# Quoted text

A text in double quotes in which double quotes, backslashes and characters that do not show are
written as escapes.  A single quote cannot end such a text and stands for itself.

## Main definitions

* `Escaped.quote` — the quoted form of a text.
-/

namespace BundlePackaging
namespace Escaped

/-- The escape of a character by its code. -/
def codeEscape (c : Char) : List Char := '\\' :: 'u' :: '{' :: Nat.toDigits 16 c.toNat ++ ['}']

/-- The form of one character inside the quotes. -/
def escape (c : Char) : List Char :=
  match c with
  | '\x00' => ['\\', '0']
  | '\t' => ['\\', 't']
  | '\n' => ['\\', 'n']
  | '\r' => ['\\', 'r']
  | '\\' => ['\\', '\\']
  | '"' => ['\\', '"']
  | c => if isHidden c then codeEscape c else [c]

/-- The text between double quotes, with escapes where they are needed. -/
def quote (s : String) : String :=
  String.ofList ('"' :: s.toList.flatMap escape ++ ['"'])

end Escaped
end BundlePackaging
