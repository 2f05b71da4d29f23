import CodeTidy.Decimal.Binary64

/-!
# The shortest decimal that reads back

`Binary64.shortest` finds, for a positive number, the decimal with the fewest digits that rounds
to it, and of those the nearest.  For one digit, then two, and so on, it tests the two
neighbours of the value on that decimal grid against the interval of reals that round to the
number; the ends of the interval belong to it when the mantissa is even.
-/

namespace CodeTidy

/-- The number `digits · 10 ^ exponent`. -/
structure Decimal where
  digits : Nat
  exponent : Int
  deriving DecidableEq, Repr

namespace Binary64

def digitCount (n : Nat) : Nat :=
  (Nat.toDigits 10 n).length

/-- The `k` with `10 ^ k ≤ num / den < 10 ^ (k + 1)`, for a positive quotient. -/
def decimalMagnitude (num den : Nat) : Int :=
  if den ≤ num then (digitCount (num / den) : Int) - 1
  else -(digitCount ((den + num - 1) / num - 1) : Int)

/-- The reals that round to a number, as numerators over one denominator. -/
structure Interval where
  low : Nat
  value : Nat
  high : Nat
  den : Nat
  closed : Bool

/-- The interval of a positive number.  Below a power of two the numbers are twice as dense. -/
def interval (x : Binary64) : Interval :=
  let below := if x.mantissa = 0x10000000000000 ∧ minExponent < x.exponent then 1 else 2
  let at_ (n : Nat) := scaled n 1 (x.exponent - 2)
  { low := (at_ (4 * x.mantissa - below)).1
    value := (at_ (4 * x.mantissa)).1
    high := (at_ (4 * x.mantissa + 2)).1
    den := (at_ 1).2
    closed := x.mantissa % 2 == 0 }

def Interval.contains (i : Interval) (num den : Nat) : Bool :=
  let n := num * i.den
  if i.closed then i.low * den ≤ n && n ≤ i.high * den
  else i.low * den < n && n < i.high * den

/-- The neighbour of the value on the grid of step `10 ^ e` that lies in the interval: the
nearer when both do, the even one at a tie. -/
def Interval.neighbour? (i : Interval) (e : Int) : Option Nat :=
  let p : Nat × Nat := if 0 ≤ e then (Nat.pow 10 e.toNat, 1) else (1, Nat.pow 10 (-e).toNat)
  let num := i.value * p.2
  let den := i.den * p.1
  let d := num / den
  let low := i.contains (d * p.1) p.2
  let high := i.contains ((d + 1) * p.1) p.2
  match low, high with
  | false, false => none
  | true, false => some d
  | false, true => some (d + 1)
  | true, true => some (roundQuotient num den)

/-- Tries grids of more and more digits. -/
def Interval.search (i : Interval) (magnitude : Int) : (tries count : Nat) → Decimal
  | 0, count => ⟨i.value / i.den, count⟩
  | tries + 1, count =>
    let e := magnitude - count
    match i.neighbour? e with
    | some d => if d = Nat.pow 10 (count + 1) then ⟨1, e + count + 1⟩ else ⟨d, e⟩
    | none => i.search magnitude tries (count + 1)

/-- The shortest decimal that rounds to a positive number; seventeen digits always do. -/
def shortest (x : Binary64) : Decimal :=
  let i := x.interval
  i.search (decimalMagnitude i.value i.den) 17 0

end Binary64

end CodeTidy
