/-!
# Binary floating point, exactly

A finite nonnegative binary64 number is `mantissa · 2 ^ exponent`.  `Binary64.ofRatio` rounds a
quotient of naturals to the nearest such number, ties to the even mantissa, and the arithmetic
of the library is that rounding applied to exact results.
-/

namespace CodeTidy

/-- A finite nonnegative number `mantissa · 2 ^ exponent` with `mantissa < 2 ^ 53` and
`-1074 ≤ exponent`, the mantissa as great as this allows. -/
structure Binary64 where
  mantissa : Nat
  exponent : Int
  deriving DecidableEq, Repr

namespace Binary64

/-- The least exponent, that of the subnormal numbers and of zero. -/
def minExponent : Int := -1074

def maxExponent : Int := 971

def zero : Binary64 := ⟨0, minExponent⟩

def isZero (x : Binary64) : Bool :=
  x.mantissa == 0

/-- The quotient rounded to the nearest natural, ties to even. -/
def roundQuotient (num den : Nat) : Nat :=
  let q := num / den
  let r := num % den
  if 2 * r < den then q
  else if 2 * r > den then q + 1
  else if q % 2 = 0 then q else q + 1

/-- Numerator and denominator of `num / den · 2 ^ e`. -/
def scaled (num den : Nat) (e : Int) : Nat × Nat :=
  if 0 ≤ e then (num * Nat.pow 2 e.toNat, den) else (num, den * Nat.pow 2 (-e).toNat)

/-- The exponent at which the quotient has a mantissa of 53 bits, or the least exponent. -/
def exponentOf (num den : Nat) : Int :=
  let e : Int := (Nat.log2 num : Int) - (Nat.log2 den : Int) - 53
  let (n, d) := scaled num den (-e)
  max minExponent (if 0x20000000000000 ≤ n / d then e + 1 else e)

/-- The number nearest to `num / den`; `none` when that is beyond the greatest. -/
def ofRatio (num den : Nat) : Option Binary64 :=
  if num = 0 then some zero
  else
    let e := exponentOf num den
    let (n, d) := scaled num den (-e)
    let m := roundQuotient n d
    let x : Binary64 := if m = 0x20000000000000 then ⟨0x10000000000000, e + 1⟩ else ⟨m, e⟩
    if maxExponent < x.exponent then none else some x

/-- The value as a numerator and a denominator. -/
def toRatio (x : Binary64) : Nat × Nat :=
  scaled x.mantissa 1 x.exponent

/-- The rounded product. -/
def mul (x y : Binary64) : Option Binary64 :=
  let (a, b) := x.toRatio
  let (c, d) := y.toRatio
  ofRatio (a * c) (b * d)

def div (x y : Binary64) : Option Binary64 :=
  let (a, b) := x.toRatio
  let (c, d) := y.toRatio
  ofRatio (a * d) (b * c)

/-- The power of ten nearest to `10 ^ k`. -/
def pow10 (k : Nat) : Option Binary64 :=
  ofRatio (Nat.pow 10 k) 1

/-- The greatest `k` for which `10 ^ k` is used as a factor. -/
def maxPow10 : Nat := 308

/-- `x` divided `steps` times by the greatest power of ten in use, and then by `10 ^ rest`.  A
quotient that has become zero stays zero. -/
def divPow10 (rest : Nat) : (steps : Nat) → (x : Binary64) → Option Binary64
  | 0, x => do x.div (← pow10 rest)
  | steps + 1, x =>
    if x.isZero then some x else do divPow10 rest steps (← x.div (← pow10 maxPow10))

/-- `x · 10 ^ e`, computed with one rounded product for `0 ≤ e` and with rounded quotients by at
most `10 ^ 308` each for `e < 0`; `none` when the result is too large. -/
def scale10 (x : Binary64) (e : Int) : Option Binary64 :=
  if x.isZero then some x
  else if 0 ≤ e then
    if e.toNat ≤ maxPow10 then do x.mul (← pow10 e.toNat) else none
  else
    let n := (-e).toNat
    let steps := (n - 1) / maxPow10
    divPow10 (n - steps * maxPow10) steps x

end Binary64

end CodeTidy
