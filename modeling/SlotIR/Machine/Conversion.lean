import SlotIR.Function

/-!
# Conversions at run time

What each conversion does to a value. Conversions between integers go by the value modulo the width
of the target; conversions from float truncate toward zero, first to 64 bits.
-/

namespace SlotIR

/-- Why an instruction cannot be carried out. -/
inductive Trap where
  | argumentOutOfRange (index : Nat)
  | undefinedTemp (id : Nat)
  | addressAsValue
  | globalOutOfRange (index : Nat)
  | loadThroughValue (operand : Operand)
  | storeThroughValue (operand : Operand)
  | storeOutOfRange (operand : Operand)
  | compareOfNonFloats
  | branchOnNonBool (value : Scalar)
  /-- A conversion yields integers, but the target is something else. -/
  | castTarget (op : CastOp) (target : Ty)
  | castOfFloat (op : CastOp)
  | invalidCast (op : CastOp) (value : Scalar)
deriving DecidableEq, Repr

namespace Trap

def message : Trap → String
  | argumentOutOfRange index => s!"argument {index} out of range"
  | undefinedTemp id => s!"%t{id} is not defined"
  | addressAsValue => "an address can't be used as a value"
  | globalOutOfRange index => s!"global {index} out of range"
  | loadThroughValue operand => "load through non address " ++ operand.form
  | storeThroughValue operand => "store through non address " ++ operand.form
  | storeOutOfRange operand => "store to " ++ operand.form ++ " out of range"
  | compareOfNonFloats => "fcmp on non float operands"
  | branchOnNonBool value => "branch on non boolean " ++ value.valueForm
  | castTarget op target => op.text ++ " can't produce " ++ target.text
  | castOfFloat op => op.text ++ " on a float"
  | invalidCast op value => "invalid cast " ++ op.text ++ " of " ++ value.valueForm

end Trap

namespace Scalar

/-- The integer that a truth value, a character or an integer stands for. -/
def toInt? : Scalar → Option Int
  | bool b => some (if b then 1 else 0)
  | char c => some c.toNat
  | int i => some i.toInt
  | float _ => none

/-- The value of an integer type that an integer is reduced to. -/
def ofInt? (n : Int) : Ty → Option Scalar
  | .bool => some (bool (n % 2 == 1))
  | .char => some (char (UInt8.ofInt n))
  | .int => some (int (Int32.ofInt n))
  | _ => none

end Scalar

namespace CastOp

/-- The result of converting a value to an integer type, given as an integer. -/
def toTarget (op : CastOp) (target : Ty) (n : Int) : Except Trap Scalar :=
  match Scalar.ofInt? n target with
  | some v => .ok v
  | none => .error (.castTarget op target)

/-- A character as a signed number of eight bits. -/
def signedChar (c : UInt8) : Int := (c.toNat : Int).bmod 256

/-- Converts a value. Only the conversions to integers look at the target. -/
def apply (op : CastOp) (value : Scalar) (target : Ty) : Except Trap Scalar :=
  match op, value with
  | signedToFloat, .char c => .ok (.float (.ofInt (signedChar c)))
  | signedToFloat, .int i => .ok (.float (.ofInt i.toInt))
  | signedToFloat, .bool b | unsignedToFloat, .bool b =>
    .ok (.float (.ofInt (if b then 1 else 0)))
  | unsignedToFloat, .char c => .ok (.float (.ofInt c.toNat))
  | unsignedToFloat, .int i => .ok (.float (.ofInt i.toUInt32.toNat))
  | floatToSigned, .float x =>
    op.toTarget target (x.toIntClamped Int64.minValue.toInt Int64.maxValue.toInt)
  | floatToUnsigned, .float x => op.toTarget target (x.toIntClamped 0 (UInt64.size - 1))
  | zeroExtend, v | truncate, v =>
    match v.toInt? with
    | some n => op.toTarget target n
    | none => .error (.castOfFloat op)
  | op, v => .error (.invalidCast op v)

end CastOp

end SlotIR
