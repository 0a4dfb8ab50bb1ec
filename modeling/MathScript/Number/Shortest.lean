import MathScript.Number.Binary64

/-!
# Shortest decimals

The fewest decimal digits that read back as a given value, and of several such
digit strings the one nearest to the value.  For 1, 2, … 17 digits the value's
two neighbours with that many digits are tried in exact arithmetic; 17 digits
always suffice.
-/

namespace MathScript

/-- The decimal number `digits * 10 ^ exponent`. -/
structure Decimal where
  digits : Nat
  exponent : Int
deriving DecidableEq, Repr, Inhabited

namespace Binary64

/-- The three positions that decide what reads back as a value, over one common
denominator: the lower end of the interval, the value and the upper end.  The
ends lie halfway to the neighbouring values. -/
structure Interval where
  low : Nat
  value : Nat
  high : Nat
  den : Nat
  /-- The ends themselves read back, which they do for an even mantissa. -/
  closed : Bool

/-- The interval of a value.  Below a power of two the values lie twice as
close, so the lower end is nearer there. -/
def interval (v : Binary64) : Interval :=
  let closed := v.mantissa % 2 == 0
  let narrow := v.mantissa == Nat.pow 2 52 && v.exponent > minExponent
  let value := 4 * v.mantissa
  let low := if narrow then value - 1 else value - 2
  let high := value + 2
  let (up, down) := if 0 ≤ v.exponent then (Nat.pow 2 v.exponent.toNat, 4)
    else (1, 4 * Nat.pow 2 (-v.exponent).toNat)
  ⟨low * up, value * up, high * up, down, closed⟩

/-- Whether `d * 10 ^ e` reads back, given as a quotient. -/
def Interval.contains (i : Interval) (num den : Nat) : Bool :=
  let low := i.low * den
  let high := i.high * den
  let x := num * i.den
  if i.closed then low ≤ x && x ≤ high else low < x && x < high

/-- `d * 10 ^ e` as a quotient of naturals. -/
def decimalQuotient (d : Nat) (e : Int) : Nat × Nat :=
  if 0 ≤ e then (d * Nat.pow 10 e.toNat, 1) else (d, Nat.pow 10 (-e).toNat)

/-- The number of decimal digits of a positive natural. -/
def digitCount (n : Nat) : Nat :=
  (Nat.toDigits 10 n).length

/-- The decimal exponent of a positive quotient: the largest `k` for which it is
at least `10 ^ k`. -/
def magnitude (num den : Nat) : Int :=
  let guess : Int := (digitCount num : Int) - (digitCount den : Int)
  -- The quotient is at least 10 ^ (guess - 1) and less than 10 ^ (guess + 1).
  let (p, q) := decimalQuotient 1 guess
  if num * q ≥ p * den then guess else guess - 1

/-- The two neighbours of the value among the multiples of `10 ^ e`: the one
that reads back, the nearer if both do, the even one if they are equally near. -/
def onGrid (i : Interval) (e : Int) : Option Decimal :=
  let (p, q) := decimalQuotient 1 e
  let below := i.value * q / (i.den * p)
  let hit (d : Nat) : Bool := let (n, m) := decimalQuotient d e; i.contains n m
  -- Twice the distance to the lower neighbour, against one step of the grid.
  let rest := 2 * (i.value * q - below * (i.den * p))
  let step := i.den * p
  match hit below && below != 0, hit (below + 1) with
  | true, true =>
    if rest < step || (rest == step && below % 2 == 0) then some ⟨below, e⟩
    else some ⟨below + 1, e⟩
  | true, false => some ⟨below, e⟩
  | false, true => some ⟨below + 1, e⟩
  | false, false => none

/-- Tries grids of `n` more digits, the coarsest first. -/
def shortestFrom (i : Interval) : (n : Nat) → Int → Decimal
  | 0, e => ⟨i.value / i.den, e⟩
  | n + 1, e =>
    match onGrid i e with
    | some d => d
    | none => shortestFrom i n (e - 1)

/-- A decimal without zeros at its end. -/
def dropZeros : (n : Nat) → Decimal → Decimal
  | 0, d => d
  | n + 1, d =>
    if d.digits % 10 = 0 && d.digits != 0 then dropZeros n ⟨d.digits / 10, d.exponent + 1⟩ else d

/-- The shortest decimal that reads back as a positive value. -/
def shortest (v : Binary64) : Decimal :=
  let i := v.interval
  dropZeros 20 (shortestFrom i 17 (magnitude i.value i.den))

end Binary64
end MathScript
