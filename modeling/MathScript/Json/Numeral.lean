import MathScript.Json.Basic

/-!
# Numerals of JSON

A numeral and the number it stands for.  Without fraction and exponent it is an
integer if it fits 64 bits, unsigned where it is positive and signed where it is
negative; anything else is a double, and so is minus zero.

The double comes from at most 19 or 20 digits: digits are taken as long as the
natural they form fits 64 bits, digits of the whole part that are left raise the
power of ten, and digits of the fraction that are left count for nothing.  That
natural is rounded to a double and multiplied or divided by a rounded power of
ten.  A magnitude too large for a double is no number.
-/

namespace MathScript

/-- A numeral as it is written, as its digits. -/
structure Numeral where
  negative : Bool
  whole : List Nat
  fraction : List Nat
  /-- The sign and the digits of the power of ten, if it is written. -/
  power : Option (Bool × List Nat)
deriving DecidableEq, Repr

namespace Numeral

/-- The naturals of 64 bits lie below this one. -/
def wordLimit : Nat := Nat.pow 2 64

/-- The natural with these decimal digits. -/
def ofDigits (ds : List Nat) : Nat :=
  ds.foldl (fun n d => 10 * n + d) 0

/-- Appends digits to a natural as long as it fits 64 bits; the digits left over
are given back. -/
def accumulate : Nat → List Nat → Nat × List Nat
  | n, [] => (n, [])
  | n, d :: ds => if 10 * n + d < wordLimit then accumulate (10 * n + d) ds else (n, d :: ds)

/-- The greatest power of ten that is a double. -/
def maxPower : Nat := 308

/-- The double nearest to `10 ^ n`. -/
def powerOfTen (n : Nat) : Binary64 :=
  (Binary64.ofNat (Nat.pow 10 n)).getD Binary64.zero

/-- A natural of 64 bits times a power of ten.  A power below the range of
doubles is divided out in two steps, and nothing is left after two. -/
def scale (n : Nat) (e : Int) : Option Binary64 := do
  let v ← Binary64.ofNat n
  if v.isZero then some v
  else if 0 ≤ e then
    if e.toNat ≤ maxPower then v.mul (powerOfTen e.toNat) else none
  else
    let down := (-e).toNat
    if down ≤ maxPower then v.div (powerOfTen down)
    else if down ≤ 2 * maxPower then
      (← v.div (powerOfTen maxPower)).div (powerOfTen (down - maxPower))
    else some .zero

/-- Powers of ten are read up to this one. -/
def maxWrittenPower : Nat := Nat.pow 2 31 - 1

/-- The magnitude as a double. -/
def magnitude? (l : Numeral) : Option Binary64 :=
  let (n, wholeLeft) := accumulate 0 l.whole
  let (n, fractionLeft) := accumulate n l.fraction
  let e : Int := wholeLeft.length - (l.fraction.length - fractionLeft.length : Nat)
  match l.power with
  | none => scale n e
  | some (down, digits) =>
    let p := ofDigits digits
    if p > maxWrittenPower then
      if n != 0 && !down then none else some .zero
    else scale n (if down then e - p else e + p)

/-- The number a numeral stands for. -/
def number? (l : Numeral) : Option JsonNumber :=
  let n := ofDigits l.whole
  if l.fraction.isEmpty && l.power.isNone then
    if !l.negative && n < wordLimit then some (.integer n)
    else if l.negative && 0 < n && n ≤ Nat.pow 2 63 then some (.integer (-n))
    else (magnitude? l).map (.double l.negative)
  else (magnitude? l).map (.double l.negative)

/-- Reads decimal digits, as many as there are. -/
def readDigits (cs : List Char) : List Nat × List Char :=
  ((cs.takeWhile Char.isDigit).map fun c => c.toNat - '0'.toNat, cs.dropWhile Char.isDigit)

/-- Reads at least one digit. -/
def readSomeDigits (cs : List Char) : Option (List Nat × List Char) :=
  match readDigits cs with
  | ([], _) => none
  | r => some r

/-- Reads a whole part: no zero stands in front of another digit. -/
def readWhole (cs : List Char) : Option (List Nat × List Char) :=
  match readDigits cs with
  | ([], _) | (0 :: _ :: _, _) => none
  | r => some r

/-- Reads a fraction, if a point follows. -/
def readFraction : List Char → Option (List Nat × List Char)
  | '.' :: cs => readSomeDigits cs
  | cs => some ([], cs)

/-- Reads the digits of a power of ten behind its sign. -/
def readSignedDigits : List Char → Option ((Bool × List Nat) × List Char)
  | '+' :: cs => (readSomeDigits cs).map fun r => ((false, r.1), r.2)
  | '-' :: cs => (readSomeDigits cs).map fun r => ((true, r.1), r.2)
  | cs => (readSomeDigits cs).map fun r => ((false, r.1), r.2)

/-- Reads a power of ten, if one follows. -/
def readPower : List Char → Option (Option (Bool × List Nat) × List Char)
  | 'e' :: cs | 'E' :: cs => (readSignedDigits cs).map fun r => (some r.1, r.2)
  | cs => some (none, cs)

/-- Reads the sign of a numeral. -/
def readSign : List Char → Bool × List Char
  | '-' :: cs => (true, cs)
  | cs => (false, cs)

/-- Reads a numeral. -/
def read (cs : List Char) : Option (Numeral × List Char) := do
  let (negative, cs) := readSign cs
  let (whole, cs) ← readWhole cs
  let (fraction, cs) ← readFraction cs
  let (power, cs) ← readPower cs
  return (⟨negative, whole, fraction, power⟩, cs)

end Numeral
end MathScript
