import SlotIR.Binary32.Basic

/-!
# Rounding to single precision

A non-negative rational, given as a quotient of naturals, is rounded to the nearest binary32
magnitude, halves going to the even neighbour. Integers and decimals are rounded through it, and
numbers are truncated back to integers.
-/

namespace SlotIR

/-- The natural nearest to `n / d`, a half going to the even one. -/
def roundQuotient (n d : Nat) : Nat :=
  if 2 * (n % d) < d ∨ (2 * (n % d) = d ∧ n / d % 2 = 0) then n / d else n / d + 1

namespace Binary32

/-- The power of two on whose multiples `n / d` is rounded: the one that leaves 24 binary digits
before the point, but never less than `2 ^ -149`. -/
def roundingExponent (n d : Nat) : Int :=
  let e : Int := (n.log2 : Int) - d.log2
  let fine := e - 24
  let exceeds := if 0 ≤ fine then d * Nat.pow 2 (24 + fine.toNat) ≤ n
    else d * Nat.pow 2 24 ≤ n * Nat.pow 2 (-fine).toNat
  max (-149) (if exceeds then fine + 1 else fine)

/-- The magnitude nearest to `n / d`; what is too large becomes infinity. -/
def nearestMagnitude (n d : Nat) : Nat :=
  let q := roundingExponent n d
  let m := if 0 ≤ q then roundQuotient n (d * Nat.pow 2 q.toNat)
    else roundQuotient (n * Nat.pow 2 (-q).toNat) d
  min infinityMagnitude (m + (q + 149).toNat * 0x800000)

theorem nearestMagnitude_lt (n d : Nat) : nearestMagnitude n d < 0x80000000 :=
  Nat.lt_of_le_of_lt (Nat.min_le_left ..) (by decide)

/-- The number nearest to `n / d`, with a given sign. -/
def ofQuotient (negative : Bool) (n d : Nat) : Binary32 :=
  if n = 0 then zero negative else ⟨negative, ⟨nearestMagnitude n d, nearestMagnitude_lt n d⟩⟩

/-- The number nearest to an integer. -/
def ofInt (i : Int) : Binary32 :=
  ofQuotient (i < 0) i.natAbs 1

/-- The number of decimal digits of `n`; zero has one. -/
def decimalLength (n : Nat) : Nat :=
  (Nat.toDigits 10 n).length

/-- The number nearest to `coefficient * 10 ^ exponent`. Decimals from `10 ^ 40` on are infinite and
those below `10 ^ -50` are zero, whatever their digits. -/
def ofDecimal (negative : Bool) (coefficient : Nat) (exponent : Int) : Binary32 :=
  if coefficient = 0 then zero negative
  else
    let top := exponent + decimalLength coefficient
    if 40 < top then infinity negative
    else if top < -50 then zero negative
    else if 0 ≤ exponent then ofQuotient negative (coefficient * Nat.pow 10 exponent.toNat) 1
    else ofQuotient negative coefficient (Nat.pow 10 (-exponent).toNat)

/-- The integer part of a finite number, toward zero. -/
def truncate (x : Binary32) : Int :=
  let n := if 0 ≤ x.exponent then x.significand * Nat.pow 2 x.exponent.toNat
    else x.significand / Nat.pow 2 (-x.exponent).toNat
  if x.negative then -(n : Int) else n

/-- The integer part of a number, moved to the nearer end of `lo..hi` if it is outside. A NaN gives
zero. -/
def toIntClamped (lo hi : Int) (x : Binary32) : Int :=
  if x.isNaN then 0
  else if x.isInfinite then (if x.negative then lo else hi)
  else max lo (min hi x.truncate)

end Binary32

end SlotIR
