/-!
# Double-precision numbers

Numbers in the binary interchange format of 64 bits, as bit patterns: one sign bit, eleven exponent
bits and 52 fraction bits. Decimals and integers are rounded to the nearest such number, a tie going
to the neighbour with an even last bit, by exact arithmetic on natural numbers.

## Main definitions

- `Binary64` — a bit pattern
- `Binary64.sameNumber` — equality of numbers: the two zeros agree and no NaN equals anything
- `Binary64.magnitudeOfQuotient` — the bits of the number nearest to a quotient
- `Binary64.ofDecimal` — the number nearest to a decimal
- `Binary64.ofInt` — the number nearest to an integer
-/

namespace StreamingJson

/-- A double-precision number, given by its bit pattern. -/
structure Binary64 where
  bits : UInt64
deriving DecidableEq, Repr, Inhabited

namespace Binary64

/-- The bits without the sign. Finite numbers and infinity are ordered as their magnitude bits. -/
def magnitude (x : Binary64) : Nat :=
  x.bits.toNat % 1 <<< 63

/-- The magnitude bits of infinity; larger ones belong to no number. -/
def infinity : Nat := 0x7FF <<< 52

/-- Whether the pattern stands for no number. -/
def isNaN (x : Binary64) : Bool :=
  infinity < x.magnitude

/-- Whether the pattern stands for a number other than the two infinities. -/
def isFinite (x : Binary64) : Bool :=
  x.magnitude < infinity

/-- Equality as numbers: the two zeros are one number, and no NaN is equal to anything. -/
def sameNumber (x y : Binary64) : Bool :=
  !x.isNaN && !y.isNaN && (x.bits == y.bits || (x.magnitude == 0 && y.magnitude == 0))

/-- The pattern with the given sign and magnitude bits. -/
def ofSignMagnitude (negative : Bool) (magnitude : Nat) : Binary64 :=
  ⟨UInt64.ofNat (if negative then 1 <<< 63 + magnitude else magnitude)⟩

/-- The integer nearest to `num / den`, an even one if two are equally near. -/
def roundHalfEven (num den : Nat) : Nat :=
  let q := num / den
  let r := num % den
  if 2 * r < den then q else if den < 2 * r then q + 1 else q + q % 2

/-- A fraction equal to `num / den` divided by two to the power `e`. -/
def scaledBy (num den : Nat) (e : Int) : Nat × Nat :=
  (num <<< (-e).toNat, den <<< e.toNat)

/-- The exponent of the largest power of two that does not exceed `num / den`. -/
def floorLog2 (num den : Nat) : Int :=
  let guess : Int := (num.log2 : Int) - (den.log2 : Int)
  let (n, d) := scaledBy num den guess
  if d ≤ n then guess else guess - 1

/-- The exponent of the smallest positive number. -/
def minExponent : Int := -1074

/-- The magnitude bits of the number nearest to `num / den`. The quotient is rounded to a multiple
of the last bit's weight; that the rounded significand is added to the exponent field makes a carry
move on to the next exponent and, past the last one, to infinity. -/
def magnitudeOfQuotient (num den : Nat) : Nat :=
  if num = 0 then 0
  else
    let weight := max (floorLog2 num den - 52) minExponent
    let (n, d) := scaledBy num den weight
    min ((weight - minExponent).toNat <<< 52 + roundHalfEven n d) infinity

/-- The number nearest to `digits` times ten to the power `exponent`. Exponents far outside the
range of the format are decided without computing the power. -/
def ofDecimal (negative : Bool) (digits : Nat) (exponent : Int) : Binary64 :=
  ofSignMagnitude negative <|
    if digits = 0 then 0
    else if 400 < exponent then infinity
    else if exponent + (digits.log2 / 3 + 2 : Nat) < -400 then 0
    else magnitudeOfQuotient (digits * Nat.pow 10 exponent.toNat) (Nat.pow 10 (-exponent).toNat)

/-- The number nearest to an integer. -/
def ofInt (i : Int) : Binary64 :=
  ofSignMagnitude (i < 0) (magnitudeOfQuotient i.natAbs 1)

/-- One tenth lies between two double-precision numbers and takes the upper one. -/
example : ofDecimal false 1 (-1) = ⟨0x3FB999999999999A⟩ := by decide +kernel

/-- Half the smallest positive number is a tie with zero, which is even. -/
example : magnitudeOfQuotient 1 (2 ^ 1075) = 0 ∧ magnitudeOfQuotient 3 (2 ^ 1075) = 2 := by
  decide +kernel

/-- An integer halfway between two neighbours takes the even one. -/
example : ofInt (2 ^ 53 + 1) = ofInt (2 ^ 53) ∧ ofInt (2 ^ 53 + 3) = ofInt (2 ^ 53 + 4) := by
  decide +kernel

end Binary64

end StreamingJson
