/-!
# The double nearest to a decimal

A decimal is a fraction. The double that stands for it has the 53 leading bits of the fraction,
rounded to the nearest number and, halfway between two, to the even one. Everything is computed
with whole numbers, so the result is right for decimals of any length.
-/

namespace UmlText.Decimal

/-- The whole number nearest to `num / den`; halfway between two, the even one. -/
def roundHalfEven (num den : Nat) : Nat :=
  let quotient := num / den
  let twice := 2 * (num % den)
  if twice < den || (twice = den && quotient % 2 = 0) then quotient else quotient + 1

/-- Rounding moves a fraction by at most one half. -/
theorem roundHalfEven_near (num den : Nat) (h : 0 < den) :
    2 * num ≤ 2 * (den * roundHalfEven num den) + den ∧
      2 * (den * roundHalfEven num den) ≤ 2 * num + den := by
  have split := Nat.div_add_mod num den
  have small := Nat.mod_lt num h
  unfold roundHalfEven
  simp only
  split
  · next c =>
    simp only [Bool.or_eq_true, Bool.and_eq_true, decide_eq_true_eq] at c
    omega
  · next c =>
    simp only [Bool.or_eq_true, Bool.and_eq_true, decide_eq_true_eq] at c
    rw [Nat.mul_add]
    omega

/-- The number of values of the fraction field of a double. -/
def doubleFractionRange : Nat := 4503599627370496

/-- The exponent of the least double: a double is a multiple of two to this power. -/
def lowestPlace : Int := -1074

/-- The bits of the infinite double, and so the number of finite doubles that are not negative. -/
def infinityBits : Nat := 2047 * doubleFractionRange

/-- `num / den` in units of two to the power `place`, as a fraction. -/
def inUnits (num den : Nat) (place : Int) : Nat × Nat :=
  (num * Nat.pow 2 (-place).toNat, den * Nat.pow 2 place.toNat)

/-- The exponent of the last of the 53 leading bits of `num / den`, which is not zero. -/
def lastPlace (num den : Nat) : Int :=
  let estimate : Int := (num.log2 : Int) - den.log2 - 53
  let (scaledNum, scaledDen) := inUnits num den estimate
  let place := if 2 * doubleFractionRange ≤ scaledNum / scaledDen then estimate + 1 else estimate
  max lowestPlace place

/-- The bits of the double nearest to `num / den`. The doubles that are not negative are numbered
by their bits in ascending order, a fraction field for each exponent, so a carry out of the
fraction leads to the right double too. -/
def nearestBits (num den : Nat) : Nat :=
  if num = 0 then 0
  else
    let place := lastPlace num den
    let (scaledNum, scaledDen) := inUnits num den place
    let bits :=
      (place - lowestPlace).toNat * doubleFractionRange + roundHalfEven scaledNum scaledDen
    min bits infinityBits

/-- The bits of the double nearest to `mantissa * 10 ^ exponent`. A decimal with more than 310
digits before its point is infinite, and one that starts behind the 330th digit after its point is
zero. -/
def doubleBits (mantissa : Nat) (exponent : Int) : Nat :=
  if mantissa = 0 then 0
  else
    let digits : Int := (Nat.toDigits 10 mantissa).length
    if 310 < digits + exponent then infinityBits
    else if digits + exponent < -330 then 0
    else
      nearestBits (mantissa * Nat.pow 10 exponent.toNat) (Nat.pow 10 (-exponent).toNat)

/-- The double nearest to `mantissa * 10 ^ exponent`. -/
def toDouble (mantissa : Nat) (exponent : Int) : Float :=
  Float.ofBits (doubleBits mantissa exponent).toUInt64

end UmlText.Decimal
