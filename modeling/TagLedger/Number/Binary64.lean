/-!
Finite double-precision numbers as exact data: sign, mantissa and a power of two. Rounding is to
the nearest representable value, a tie goes to the even mantissa. Decimal spellings are read with
two roundings, one of the digits and one of the power of ten, so the value of a long spelling may
differ from the nearest double in its last place.
-/

namespace TagLedger

/-- The number `(-1)^negative * mantissa * 2^exponent`. -/
structure Binary64 where
  negative : Bool
  mantissa : Nat
  exponent : Int
deriving DecidableEq, Repr, Inhabited

namespace Binary64

def minExponent : Int := -1074

/-- Largest exponent of a finite number with a full mantissa. -/
def maxExponent : Int := 971

def zero (negative : Bool) : Binary64 := ⟨negative, 0, minExponent⟩

def isZero (x : Binary64) : Bool := x.mantissa == 0

/-- Mantissas of normal numbers have 53 bits, smaller ones only at the least exponent. -/
def Canonical (x : Binary64) : Prop :=
  x.mantissa < Nat.pow 2 53 ∧ minExponent ≤ x.exponent ∧ x.exponent ≤ maxExponent ∧
    (Nat.pow 2 52 ≤ x.mantissa ∨ x.exponent = minExponent)

instance (x : Binary64) : Decidable x.Canonical := by
  unfold Canonical
  infer_instance

/-- The quotient of two natural numbers rounded to the nearest, ties to even. -/
def divRound (num den : Nat) : Nat :=
  let q := num / den
  let r := num % den
  if 2 * r < den then q
  else if den < 2 * r then q + 1
  else if q % 2 = 0 then q else q + 1

/-- Numerator and denominator of `num / den / 2 ^ e`. -/
def scaled (num den : Nat) (e : Int) : Nat × Nat :=
  (num * Nat.pow 2 (-e).toNat, den * Nat.pow 2 e.toNat)

/-- The double nearest to `num / den`; none when it is too large to be finite. -/
def ofRatio (negative : Bool) (num den : Nat) : Option Binary64 :=
  if num = 0 then some (zero negative)
  else
    let guess : Int := (Nat.log2 num : Int) - Nat.log2 den - 52
    let top := scaled num den guess
    let e := max (if top.1 / top.2 < Nat.pow 2 52 then guess - 1 else guess) minExponent
    let parts := scaled num den e
    let m := divRound parts.1 parts.2
    let x : Binary64 :=
      if m = Nat.pow 2 53 then ⟨negative, Nat.pow 2 52, e + 1⟩ else ⟨negative, m, e⟩
    if maxExponent < x.exponent then none else some x

/-- The magnitude as a quotient of natural numbers. -/
def ratio (x : Binary64) : Nat × Nat :=
  (x.mantissa * Nat.pow 2 x.exponent.toNat, Nat.pow 2 (-x.exponent).toNat)

def mul (x y : Binary64) : Option Binary64 :=
  ofRatio (x.negative != y.negative) (x.ratio.1 * y.ratio.1) (x.ratio.2 * y.ratio.2)

/-- Division by a number other than zero. -/
def div (x y : Binary64) : Option Binary64 :=
  ofRatio (x.negative != y.negative) (x.ratio.1 * y.ratio.2) (x.ratio.2 * y.ratio.1)

def tenPow (k : Nat) : Option Binary64 := ofRatio false (Nat.pow 10 k) 1

/-- Largest power of ten that is finite. -/
def maxTenPow : Nat := 308

/-- Multiply a nonnegative number by a power of ten; none when the product is too large. Below the
range of finite powers the division is done in steps of the largest one, at most `steps` of them;
two bring every 64-bit number to zero. -/
def shiftDecimal : (steps : Nat) → Binary64 → Int → Option Binary64
  | 0, x, _ => some x
  | steps + 1, x, exponent =>
    if exponent.natAbs ≤ maxTenPow then
      (tenPow exponent.natAbs).bind fun p => if 0 ≤ exponent then x.mul p else x.div p
    else if x.isZero then some x
    else if 0 ≤ exponent then none
    else
      ((tenPow maxTenPow).bind x.div).bind fun y =>
        shiftDecimal steps y (exponent + maxTenPow)

/-- The number written as `significand * 10 ^ exponent`. -/
def ofDecimal (negative : Bool) (significand : Nat) (exponent : Int) : Option Binary64 :=
  ((ofRatio false significand 1).bind (shiftDecimal 3 · exponent)).map ({ · with negative })

/-- Equal as numbers: the sign of zero does not count. -/
def sameValue (x y : Binary64) : Bool :=
  (x.isZero && y.isZero) || x == y

end Binary64

end TagLedger
