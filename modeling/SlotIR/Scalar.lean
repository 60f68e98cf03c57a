import SlotIR.Ty
import SlotIR.Binary32.Printer

/-!
# Scalar values

The constants of a program, which are also the values that a running program holds.
-/

namespace SlotIR

/-- A value of a scalar type. -/
inductive Scalar where
  | bool (b : Bool)
  | char (c : UInt8)
  | int (i : Int32)
  | float (x : Binary32)
deriving DecidableEq, Repr, Inhabited

namespace Scalar

/-- The type of a scalar. -/
def ty : Scalar → Ty
  | bool _ => .bool
  | char _ => .char
  | int _ => .int
  | float _ => .float

/-- The zero of a type, if the type has one. -/
def zero? : Ty → Option Scalar
  | .bool => some (bool false)
  | .char => some (char 0)
  | .int => some (int 0)
  | .float => some (float (.zero false))
  | .void | .ptr _ | .fn .. => none

/-- The decimal text of an integer. -/
def intText (i : Int) : String :=
  String.ofList ((if i < 0 then ['-'] else []) ++ Nat.toDigits 10 i.natAbs)

/-- The text of a truth value. -/
def boolText (b : Bool) : String :=
  if b then "true" else "false"

/-- The text of a scalar as it stands in a program. -/
def text : Scalar → String
  | bool b => boolText b
  | char c => intText c.toNat
  | int i => intText i.toInt
  | float x => x.toText

/-- The text of a scalar in messages about running programs. -/
def valueForm : Scalar → String
  | bool b => "Bool(" ++ boolText b ++ ")"
  | char c => "Char(" ++ intText c.toNat ++ ")"
  | int i => "Int(" ++ intText i.toInt ++ ")"
  | float x => "Float(" ++ x.toText ++ ")"

/-- The text of a scalar in messages about program text. -/
def constantForm : Scalar → String
  | bool b => "Bool(" ++ boolText b ++ ")"
  | char c => "Char(" ++ intText c.toNat ++ ")"
  | int i => "I32(" ++ intText i.toInt ++ ")"
  | float x => "F32(" ++ x.toText ++ ")"

end Scalar

end SlotIR
