/-!
# Values of configuration documents

The values that a TOML document can hold.  Numbers are kept exactly as written; a date or a time is
known only to be one.

## Main definitions

* `Toml.Value` — the values.
* `Toml.Value.isRepresentable` — whether every number in a value fits in the types that hold
  numbers.
-/

namespace BundlePackaging
namespace Toml

/-- A number that is not an integer. -/
inductive Decimal where
  /-- The number `coefficient * 10 ^ exponent`, or its negative. -/
  | finite (negative : Bool) (coefficient : Nat) (exponent : Int)
  /-- Infinity, of either sign. -/
  | infinity
  /-- No number. -/
  | nan
  deriving DecidableEq, Repr, Inhabited

/-- The smallest number that a double-precision float rounds to infinity. -/
def floatLimit : Nat := Nat.pow 2 1024 - Nat.pow 2 970

/-- Whether a finite number is so large that a double-precision float rounds it to infinity.  The
number of digits decides first, so that no large power is computed without need. -/
def Decimal.overflows : Decimal → Bool
  | infinity | nan => false
  | finite _ coefficient exponent =>
    let digits : Int := (Nat.toDigits 10 coefficient).length
    -- the limit has 309 digits
    if coefficient = 0 ∨ digits + exponent < 300 then false
    else if 400 < digits + exponent then true
    else floatLimit * Nat.pow 10 (-exponent).toNat ≤ coefficient * Nat.pow 10 exponent.toNat

/-- A value of a document. -/
inductive Value where
  /-- A text. -/
  | string (text : String)
  /-- An integer of any size. -/
  | integer (n : Int)
  /-- A number that is not an integer. -/
  | decimal (d : Decimal)
  /-- A truth value. -/
  | boolean (b : Bool)
  /-- A date, a time of day, or both. -/
  | time
  /-- A list of values. -/
  | array (elements : List Value)
  /-- A table; no key occurs twice. -/
  | table (entries : List (String × Value))
  deriving Repr, Inhabited

mutual

/-- Whether every integer in a value fits in 64 bits, with a sign or without, and every other number
is finite unless it is written as infinite. -/
def Value.isRepresentable : Value → Bool
  | .integer n => -9223372036854775808 ≤ n && n < 18446744073709551616
  | .decimal d => !d.overflows
  | .string _ | .boolean _ | .time => true
  | .array elements => areRepresentable elements
  | .table entries => entriesAreRepresentable entries

/-- Whether all elements of a list are representable. -/
def areRepresentable : List Value → Bool
  | [] => true
  | v :: vs => v.isRepresentable && areRepresentable vs

/-- Whether all values of a table are representable. -/
def entriesAreRepresentable : List (String × Value) → Bool
  | [] => true
  | (_, v) :: es => v.isRepresentable && entriesAreRepresentable es

end

end Toml
end BundlePackaging
