import TagLedger.Number.Binary64

/-!
The shortest decimal spelling of a double: the fewest digits that read back as the same number,
and of those the nearest to it.
-/

namespace TagLedger.Binary64

/-- Four times the mantissa with the two ends of the interval of reals that round to the number,
in quarters of its last place. The gap below a power of two is half as wide. -/
def roundingInterval (x : Binary64) : Nat × Nat × Nat :=
  let m := 4 * x.mantissa
  let below := if x.mantissa = Nat.pow 2 52 ∧ minExponent < x.exponent then 1 else 2
  (m - below, m, m + 2)

/-- Compares `digits * 10 ^ power` with `quarters * 2 ^ (exponent - 2)`. -/
def compareDecimal (digits : Nat) (power : Int) (quarters : Nat) (exponent : Int) : Ordering :=
  let e := exponent - 2
  compare (digits * Nat.pow 10 power.toNat * Nat.pow 2 (-e).toNat)
    (quarters * Nat.pow 2 e.toNat * Nat.pow 10 (-power).toNat)

/-- Whether a decimal reads back as the number; the ends of the interval belong to even
mantissas. -/
def readsBack (x : Binary64) (digits : Nat) (power : Int) : Bool :=
  let (lo, _, hi) := x.roundingInterval
  let low := compareDecimal digits power lo x.exponent
  let high := compareDecimal digits power hi x.exponent
  if x.mantissa % 2 = 0 then low.isGE && high.isLE else low.isGT && high.isLT

/-- The largest multiple of `10 ^ power` not above the number. -/
def decimalFloor (x : Binary64) (power : Int) : Nat :=
  let (num, den) := x.ratio
  num * Nat.pow 10 (-power).toNat / (den * Nat.pow 10 power.toNat)

/-- The position of the leading digit of a number other than zero. -/
def leadingPower (x : Binary64) : Int :=
  let bits : Int := Nat.log2 x.mantissa + x.exponent
  let guess := bits * 30103 / 100000
  if x.decimalFloor (guess + 1) = 0 then
    if x.decimalFloor guess = 0 then guess - 1 else guess
  else guess + 1

/-- The better of the two neighbours on a decimal grid, if one of them reads back. -/
def nearestOnGrid (x : Binary64) (power : Int) : Option Nat :=
  let d := x.decimalFloor power
  match x.readsBack d power, x.readsBack (d + 1) power with
  | false, false => none
  | true, false => some d
  | false, true => some (d + 1)
  | true, true =>
    -- twice the midpoint of the two against twice the number
    match compareDecimal (2 * d + 1) power (2 * (4 * x.mantissa)) x.exponent with
    | .lt => some (d + 1)
    | .gt => some d
    | .eq => some (if d % 2 = 0 then d else d + 1)

/-- The first grid from `power` downwards that has a neighbour which reads back. -/
def firstGrid (x : Binary64) : Nat → Int → Nat × Int
  | 0, power => (x.decimalFloor power, power)
  | n + 1, power =>
    match x.nearestOnGrid power with
    | some d => (d, power)
    | none => firstGrid x n (power - 1)

/-- Drops trailing zeros of the digits. -/
def dropZeros (d : Nat) (power : Int) : Nat × Int :=
  if h : d ≠ 0 ∧ d % 10 = 0 then dropZeros (d / 10) (power + 1) else (d, power)
termination_by d
decreasing_by exact Nat.div_lt_self (by omega) (by decide)

/-- Digits and power of ten of the shortest spelling of the magnitude; seventeen digits always
read back. -/
def shortest (x : Binary64) : Nat × Int :=
  if x.isZero then (0, 0)
  else
    let found := x.firstGrid 17 x.leadingPower
    dropZeros found.1 found.2

/-- How numbers are laid out: from `minPositional` up to `maxPositional` as the power of the
leading digit they are written without an exponent. -/
structure Layout where
  minPositional : Int
  maxPositional : Int

/-- The spelling of the digits `ds` with leading power `lead`: always with a point or an
exponent. -/
def Layout.render (layout : Layout) (ds : List Char) (lead : Int) : List Char :=
  if layout.minPositional ≤ lead ∧ lead ≤ layout.maxPositional then
    if lead < 0 then
      ['0', '.'] ++ List.replicate (-lead - 1).toNat '0' ++ ds
    else
      let whole := lead.toNat + 1
      let padded := ds ++ List.replicate (whole - ds.length) '0'
      let fraction := padded.drop whole
      padded.take whole ++ ['.'] ++ (if fraction.isEmpty then ['0'] else fraction)
  else
    let head := ds.take 1
    let tail := ds.drop 1
    let point := if tail.isEmpty then [] else '.' :: tail
    let sign := if lead < 0 then '-' else '+'
    head ++ point ++ ['e', sign] ++ (toString lead.natAbs).toList

/-- Numbers from a hundred-thousandth up to below 10^16 are written out, others have a signed
exponent. -/
def plainLayout : Layout := ⟨-5, 15⟩

/-- The shortest spelling of a number. -/
def toText (x : Binary64) : List Char :=
  let sign := if x.negative then ['-'] else []
  if x.isZero then sign ++ ['0', '.', '0']
  else
    let (d, power) := x.shortest
    let ds := (toString d).toList
    sign ++ plainLayout.render ds (power + ds.length - 1)

end TagLedger.Binary64
