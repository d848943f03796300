/-!
# Hexadecimal text

Bytes are written as two lower-case digits each, high half first.  Reading accepts digits of
either case and nothing else.

## Main definitions

* `Hex.encode`, `Hex.decode?` — bytes to text and back.
* `Hex.padded` — a number with leading zeros up to a given width.

## Main results

* `Hex.decode?_encode` — written bytes read back.
-/

namespace BundlePackaging
namespace Hex

/-- The value of a hexadecimal digit of either case. -/
def digitValue? (c : Char) : Option Nat :=
  if '0' ≤ c ∧ c ≤ '9' then some (c.toNat - '0'.toNat)
  else if 'a' ≤ c ∧ c ≤ 'f' then some (c.toNat - 'a'.toNat + 10)
  else if 'A' ≤ c ∧ c ≤ 'F' then some (c.toNat - 'A'.toNat + 10)
  else none

theorem digitValue?_digitChar {n : Nat} (h : n < 16) : digitValue? n.digitChar = some n := by
  have all : ∀ m : Fin 16, digitValue? m.val.digitChar = some m.val := by decide
  exact all ⟨n, h⟩

/-- The two digits of a byte. -/
def byteDigits (b : UInt8) : List Char := [(b.toNat / 16).digitChar, (b.toNat % 16).digitChar]

/-- The text of a list of bytes. -/
def encode (bytes : List UInt8) : String := String.ofList (bytes.flatMap byteDigits)

/-- The bytes that pairs of digits stand for, after those of `read`, which holds them last first. -/
def decodeChars (read : List UInt8) : List Char → Option (List UInt8)
  | [] => some read.reverse
  | [_] => none
  | h :: l :: rest =>
    match digitValue? h, digitValue? l with
    | some h, some l => decodeChars (UInt8.ofNat (16 * h + l) :: read) rest
    | _, _ => none

/-- The bytes that a text of pairs of digits stands for. -/
def decode? (text : String) : Option (List UInt8) := decodeChars [] text.toList

theorem decodeChars_byteDigits (read : List UInt8) (b : UInt8) (rest : List Char) :
    decodeChars read (byteDigits b ++ rest) = decodeChars (b :: read) rest := by
  have hb := b.toNat_lt
  simp only [byteDigits, List.cons_append, List.nil_append, decodeChars,
    digitValue?_digitChar (show b.toNat / 16 < 16 by omega),
    digitValue?_digitChar (show b.toNat % 16 < 16 by omega),
    show 16 * (b.toNat / 16) + b.toNat % 16 = b.toNat by omega, UInt8.ofNat_toNat]

theorem decodeChars_flatMap (read bytes : List UInt8) :
    decodeChars read (bytes.flatMap byteDigits) = some (read.reverse ++ bytes) := by
  induction bytes generalizing read with
  | nil => simp [decodeChars]
  | cons b bytes ih => rw [List.flatMap_cons, decodeChars_byteDigits, ih]; simp

@[simp] theorem decode?_encode (bytes : List UInt8) : decode? (encode bytes) = some bytes := by
  simp [decode?, encode, decodeChars_flatMap]

/-- The hexadecimal digits of a number, with zeros in front up to `width` digits. -/
def padded (width n : Nat) : String := String.ofList ((Nat.toDigits 16 n).leftpad width '0')

end Hex
end BundlePackaging
