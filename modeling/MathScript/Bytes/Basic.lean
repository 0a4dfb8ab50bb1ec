import MathScript.Text.Hex

/-!
# Bytes

Byte strings as lists, naturals in little-endian order, and hexadecimal text.
-/

namespace MathScript

/-- A byte string. -/
abbrev Bytes := List UInt8

namespace Bytes

/-- The UTF-8 form of a text. -/
def ofString (s : String) : Bytes :=
  s.toUTF8.data.toList

/-- The lowest `width` bytes of a natural, the lowest first. -/
def ofNat : (width : Nat) → Nat → Bytes
  | 0, _ => []
  | width + 1, n => UInt8.ofNat n :: ofNat width (n / 256)

@[simp] theorem length_ofNat (width n : Nat) : (ofNat width n).length = width := by
  induction width generalizing n with
  | zero => rfl
  | succ width ih => simp [ofNat, ih]

/-- The natural with these bytes, the lowest first. -/
def toNat : Bytes → Nat
  | [] => 0
  | b :: bs => b.toNat + 256 * toNat bs

/-- Two hexadecimal digits to a byte, in lower case. -/
def hex (bs : Bytes) : String :=
  String.ofList (bs.flatMap fun b => [Text.hexDigit (b.toNat / 16), Text.hexDigit b.toNat])

/-- The bytes that pairs of hexadecimal digits stand for. -/
def ofHexChars : List Char → Option Bytes
  | [] => some []
  | [_] => none
  | a :: b :: cs => do
    let byte := UInt8.ofNat ((← Text.hexValue? a) * 16 + (← Text.hexValue? b))
    return byte :: (← ofHexChars cs)

/-- Reads hexadecimal text. -/
def ofHex? (text : String) : Option Bytes :=
  ofHexChars text.toList

end Bytes
end MathScript
