import BundlePackaging.Text.Hex
import BundlePackaging.Toml.Value

/-!
# Scalars of a document

The values that stand without quotes and brackets: truth values, numbers, dates and times.  Each is
read from a word that holds nothing else.

## Main definitions

* `integer?`, `decimal?` — numbers.
* `isDateTime` — dates and times.
* `scalar?` — any scalar.
-/

namespace BundlePackaging
namespace Toml

/-! ### Numbers -/

/-- The digits of a word in which single underscores may stand between digits. -/
def digitsOf? (isDigit : Char → Bool) : List Char → Option (List Char)
  | [] => none
  | [c] => if isDigit c then some [c] else none
  | c :: '_' :: cs => if isDigit c then (digitsOf? isDigit cs).map (c :: ·) else none
  | c :: cs => if isDigit c then (digitsOf? isDigit cs).map (c :: ·) else none

/-- The digits of a decimal number without superfluous zeros in front. -/
def wholeDigits? (word : List Char) : Option (List Char) :=
  match digitsOf? Char.isDigit word with
  | some ('0' :: _ :: _) => none
  | digits => digits

/-- Whether a word has a minus sign, and the word without its sign. -/
def splitSign : List Char → Bool × List Char
  | '-' :: cs => (true, cs)
  | '+' :: cs => (false, cs)
  | cs => (false, cs)

/-- The number with the given digits to a base of at most 16, if all are digits of that base. -/
def ofDigits? (base : Nat) (word : List Char) : Option Nat := do
  let digits ← digitsOf? (fun c => (Hex.digitValue? c).any (· < base)) word
  let values ← digits.mapM Hex.digitValue?
  return values.foldl (fun n d => base * n + d) 0

/-- The integer that a word stands for. -/
def integer? : List Char → Option Int
  | '0' :: 'x' :: cs => (ofDigits? 16 cs).map Int.ofNat
  | '0' :: 'o' :: cs => (ofDigits? 8 cs).map Int.ofNat
  | '0' :: 'b' :: cs => (ofDigits? 2 cs).map Int.ofNat
  | word => do
    let (negative, word) := splitSign word
    let n := Nat.ofDigitChars 10 (← wholeDigits? word) 0
    return if negative then -n else n

/-- The exponent of a decimal number, after the letter that announces it. -/
def exponent? (word : List Char) : Option Int := do
  let (negative, word) := splitSign word
  let n := Nat.ofDigitChars 10 (← digitsOf? Char.isDigit word) 0
  return if negative then -n else n

/-- The digits behind the point and the exponent, after the whole part of a decimal number, of which
at least one has to be there. -/
def fractionAndExponent? : List Char → Option (List Char × Int)
  | '.' :: cs => do
    let fraction ← digitsOf? Char.isDigit (cs.takeWhile fun c => c ≠ 'e' && c ≠ 'E')
    match cs.dropWhile fun c => c ≠ 'e' && c ≠ 'E' with
    | [] => return (fraction, 0)
    | _ :: exponent => return (fraction, ← exponent? exponent)
  | 'e' :: exponent => do return ([], ← exponent? exponent)
  | 'E' :: exponent => do return ([], ← exponent? exponent)
  | _ => none

/-- The number that is not an integer for which a word stands. -/
def decimal? (word : List Char) : Option Decimal :=
  let (negative, word) := splitSign word
  if word = "inf".toList then some .infinity
  else if word = "nan".toList then some .nan
  else do
    let isPart (c : Char) : Bool := c.isDigit || c = '_'
    let whole ← wholeDigits? (word.takeWhile isPart)
    let (fraction, exponent) ← fractionAndExponent? (word.dropWhile isPart)
    return .finite negative (Nat.ofDigitChars 10 (whole ++ fraction) 0)
      (exponent - fraction.length)

/-! ### Dates and times -/

/-- The number that `count` digits in front of a word stand for, and the rest of the word. -/
def fixedNumber? (count : Nat) (word : List Char) : Option (Nat × List Char) :=
  let digits := word.take count
  if digits.length = count ∧ digits.all Char.isDigit then
    some (Nat.ofDigitChars 10 digits 0, word.drop count)
  else none

/-- The number of days of a month. -/
def daysInMonth (year month : Nat) : Nat :=
  if month = 2 then
    if year % 4 = 0 ∧ (year % 100 ≠ 0 ∨ year % 400 = 0) then 29 else 28
  else if month = 4 ∨ month = 6 ∨ month = 9 ∨ month = 11 then 30
  else 31

/-- The rest of a word after a date. -/
def afterDate? (word : List Char) : Option (List Char) := do
  let (year, word) ← fixedNumber? 4 word
  let '-' :: word := word | none
  let (month, word) ← fixedNumber? 2 word
  let '-' :: word := word | none
  let (day, word) ← fixedNumber? 2 word
  if 1 ≤ month ∧ month ≤ 12 ∧ 1 ≤ day ∧ day ≤ daysInMonth year month then some word else none

/-- The rest of a word after hours and minutes. -/
def afterMinutes? (word : List Char) : Option (List Char) := do
  let (hour, word) ← fixedNumber? 2 word
  let ':' :: word := word | none
  let (minute, word) ← fixedNumber? 2 word
  if hour ≤ 23 ∧ minute ≤ 59 then some word else none

/-- The rest of a word after a fraction of a second, if there is one. -/
def afterFraction? : List Char → Option (List Char)
  | '.' :: cs =>
    if (cs.takeWhile Char.isDigit).isEmpty then none else some (cs.dropWhile Char.isDigit)
  | cs => some cs

/-- The rest of a word after a time of day, whose seconds may be missing. -/
def afterTime? (word : List Char) : Option (List Char) := do
  let word ← afterMinutes? word
  match word with
  | ':' :: word =>
    let (second, word) ← fixedNumber? 2 word
    if second ≤ 60 then afterFraction? word else none
  | _ => some word

/-- Whether a word is empty or the distance of a time zone. -/
def isOffset : List Char → Bool
  | [] | ['Z'] | ['z'] => true
  | '+' :: word | '-' :: word => afterMinutes? word = some []
  | _ => false

/-- Whether a word is a date. -/
def isDate (word : List Char) : Bool := afterDate? word = some []

/-- Whether a word is a date, a time of day, or both. -/
def isDateTime (word : List Char) : Bool :=
  match afterDate? word with
  | none => afterTime? word = some []
  | some [] => true
  | some (c :: rest) => (c = 'T' || c = 't' || c = ' ') && (afterTime? rest).any isOffset

/-! ### Scalars -/

/-- The value that a word stands for. -/
def scalar? (word : List Char) : Option Value :=
  if word = "true".toList then some (.boolean true)
  else if word = "false".toList then some (.boolean false)
  else
    match integer? word with
    | some n => some (.integer n)
    | none =>
      match decimal? word with
      | some d => some (.decimal d)
      | none => if isDateTime word then some .time else none

end Toml
end BundlePackaging
