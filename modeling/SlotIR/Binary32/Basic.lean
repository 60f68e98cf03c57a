/-!
# Single precision numbers

`Binary32` holds the numbers of the IEEE 754 format binary32: a sign, and a magnitude that is the
remaining 31 bits read as one natural number. Magnitudes of finite numbers are ordered like the
numbers themselves, so that rounding up past the end of one binade is a carry into the next.
-/

namespace SlotIR

/-- A binary32 number: its sign bit, and its exponent and fraction bits as one number. -/
structure Binary32 where
  negative : Bool
  magnitude : Fin 0x80000000
deriving DecidableEq, Repr, Inhabited

namespace Binary32

/-- The magnitude of infinity; greater magnitudes are not numbers. -/
def infinityMagnitude : Nat := 0x7F800000

/-- The number with a given 32-bit pattern. -/
def ofBits (bits : Nat) : Binary32 :=
  ⟨bits / 0x80000000 % 2 == 1, Fin.ofNat _ bits⟩

/-- The 32-bit pattern of a number. -/
def toBits (x : Binary32) : Nat :=
  (if x.negative then 0x80000000 else 0) + x.magnitude.val

def zero (negative : Bool) : Binary32 := ⟨negative, 0⟩

def infinity (negative : Bool) : Binary32 := ⟨negative, ⟨infinityMagnitude, by decide⟩⟩

def nan (negative : Bool) : Binary32 := ⟨negative, ⟨0x7FC00000, by decide⟩⟩

def isNaN (x : Binary32) : Bool := infinityMagnitude < x.magnitude.val

def isInfinite (x : Binary32) : Bool := x.magnitude.val == infinityMagnitude

/-- The integer `m` of the value `m * 2 ^ exponent` of a finite number. -/
def significand (x : Binary32) : Nat :=
  let fraction := x.magnitude.val % 0x800000
  if x.magnitude.val < 0x800000 then fraction else 0x800000 + fraction

/-- The power of two that scales `significand`. -/
def exponent (x : Binary32) : Int :=
  max 1 (x.magnitude.val / 0x800000 : Nat) - 150

/-- Ordered and not equal: neither operand is a NaN, and their values differ. Zeros of both signs
have the same value. -/
def lessOrGreater (x y : Binary32) : Bool :=
  !x.isNaN && !y.isNaN && x != y && !(x.magnitude.val == 0 && y.magnitude.val == 0)

end Binary32

end SlotIR
