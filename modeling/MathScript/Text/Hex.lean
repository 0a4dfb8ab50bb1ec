/-!
# Hexadecimal digits

A digit is written in lower case and read in either case; `hexValue?_hexDigit`
says that what is written is read back.
-/

namespace MathScript.Text

/-- The lower-case digit for the lowest four bits of a natural. -/
def hexDigit (n : Nat) : Char :=
  Nat.digitChar (n % 16)

/-- The value of a digit, in either case. -/
def hexValue? (c : Char) : Option Nat :=
  if c.isDigit then some (c.toNat - '0'.toNat)
  else if 'a' ≤ c && c ≤ 'f' then some (c.toNat - 'a'.toNat + 10)
  else if 'A' ≤ c && c ≤ 'F' then some (c.toNat - 'A'.toNat + 10)
  else none

@[simp] theorem hexValue?_hexDigit (n : Nat) : hexValue? (hexDigit n) = some (n % 16) := by
  have digits : ∀ d : Fin 16, hexValue? (Nat.digitChar d) = some d.val := by decide
  exact digits ⟨n % 16, Nat.mod_lt n (by decide)⟩

end MathScript.Text
