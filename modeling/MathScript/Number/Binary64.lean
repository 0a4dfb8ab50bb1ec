/-!
# Double-precision magnitudes

The non-negative finite values of IEEE 754's binary64, as `mantissa * 2 ^
exponent` in exact integers, and the three operations that reading a decimal
takes: rounding a quotient of naturals, a product and a quotient of two values.
All round to nearest, a tie going to the even mantissa; a result too large for
the format is `none`.
-/

namespace MathScript

/-- The value `mantissa * 2 ^ exponent`.  Rounding gives mantissas below `2 ^ 53`
and exponents between -1074 and 971. -/
structure Binary64 where
  mantissa : Nat
  exponent : Int
deriving DecidableEq, Repr, Inhabited

namespace Binary64

def zero : Binary64 := ⟨0, -1074⟩

/-- The least exponent of a value, and the greatest. -/
def minExponent : Int := -1074
def maxExponent : Int := 971

def isZero (v : Binary64) : Bool := v.mantissa == 0

/-- The natural nearest to a quotient, the even one if two are equally near. -/
def roundQuotient (num den : Nat) : Nat :=
  let q := num / den
  let r := num % den
  if 2 * r > den || (2 * r == den && q % 2 == 1) then q + 1 else q

/-- A natural times a power of two, as a quotient of naturals. -/
def scaled (num den : Nat) (exponent : Int) : Nat × Nat :=
  if 0 ≤ exponent then (num, den * Nat.pow 2 exponent.toNat)
  else (num * Nat.pow 2 (-exponent).toNat, den)

/-- An exponent at which `num / den` has a mantissa of 53 bits, or of fewer where
the format has no smaller exponent. -/
def quotientExponent (num den : Nat) : Int :=
  let guess : Int := (num.log2 : Int) - (den.log2 : Int) - 53
  let (n, d) := scaled num den guess
  -- The guess leaves a quotient between 2 ^ 52 and 2 ^ 54.
  let exact := if n < d * Nat.pow 2 53 then guess else guess + 1
  max exact minExponent

/-- The value nearest to `num / den`, for a positive `den`. -/
def ofQuotient (num den : Nat) : Option Binary64 :=
  if num = 0 then some zero
  else
    let e := quotientExponent num den
    let (n, d) := scaled num den e
    let m := roundQuotient n d
    let v : Binary64 := if m = Nat.pow 2 53 then ⟨Nat.pow 2 52, e + 1⟩ else ⟨m, e⟩
    if v.exponent > maxExponent then none else some v

/-- The value nearest to a natural. -/
def ofNat (n : Nat) : Option Binary64 :=
  ofQuotient n 1

/-- The value as a quotient of naturals. -/
def toQuotient (v : Binary64) : Nat × Nat :=
  if 0 ≤ v.exponent then (v.mantissa * Nat.pow 2 v.exponent.toNat, 1)
  else (v.mantissa, Nat.pow 2 (-v.exponent).toNat)

/-- The value nearest to a product. -/
def mul (v w : Binary64) : Option Binary64 :=
  let (a, b) := v.toQuotient
  let (c, d) := w.toQuotient
  ofQuotient (a * c) (b * d)

/-- The value nearest to a quotient, for `w` not zero. -/
def div (v w : Binary64) : Option Binary64 :=
  let (a, b) := v.toQuotient
  let (c, d) := w.toQuotient
  ofQuotient (a * d) (b * c)

end Binary64
end MathScript
