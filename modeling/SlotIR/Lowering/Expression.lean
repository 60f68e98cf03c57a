import SlotIR.Builder
import SlotIR.Syntax.Shape

/-!
# Lowering values

What lowering a node yields, and the steps on values that statements and calls share: reading
variables, converting between arithmetic types, and testing conditions.
-/

namespace SlotIR.Lowering

open Syntax (Node Span)
open Builder

/-- What lowering a node yields. -/
inductive Lowered where
  /-- Statements, and calls of functions without a return value. -/
  | unit
  | value (v : Value)
  | function (index : Nat)
deriving DecidableEq, Repr

/-- Lowers a node in a scope. -/
abbrev Lower := Node → ScopeId → BuildM Lowered

/-- The value that lowering a node must have yielded. -/
def expectValue (n : Node) : Lowered → BuildM Value
  | .value v => pure v
  | .unit | .function _ => fail n.span (.typeMismatch .expression .someValue .void)

/-- Lowers a node that must yield a value. -/
def lowerValue (lower : Lower) (n : Node) (scope : ScopeId) : BuildM Value := do
  expectValue n (← lower n scope)

/-- The storage that an identifier names. -/
def lowerAddress (n : Node) (scope : ScopeId) : BuildM Value := do
  match (← get).scopes.lookup? scope n.text with
  | some address => return address
  | none => fail n.span (.undefinedIdentifier n.text)

/-- An identifier as a value reads its storage. -/
def lowerIdentifier (n : Node) (scope : ScopeId) : BuildM Value := do
  load (← lowerAddress n scope)

/-- The conversion from one arithmetic type to another. -/
def conversion? : Ty → Ty → Option CastOp
  | .int, .float => some .signedToFloat
  | .char, .float => some .unsignedToFloat
  | .float, .int => some .floatToSigned
  | .float, .char => some .floatToUnsigned
  | .char, .int => some .zeroExtend
  | .int, .char => some .truncate
  | _, _ => none

/-- Converts a value to a type. -/
def convert (v : Value) (ty : Ty) (context : TypeContext) (span : Option Span) : BuildM Value :=
  if v.ty = ty then pure v
  else
    match conversion? v.ty ty with
    | some op => cast op v ty
    | none => fail span (.typeMismatch context (.exactly ty) v.ty)

/-- Turns an arithmetic value into a condition: as a float, it differs from zero. -/
def lowerCondition (v : Value) (span : Option Span) : BuildM Value := do
  let x ← match v.ty with
    | .int => cast .signedToFloat v .float
    | .char => cast .unsignedToFloat v .float
    | .float => pure v
    | ty => fail span (.typeMismatch .condition .arithmeticType ty)
  compare x (.const (.float (.zero false)))

/-- A value must have a type. -/
def expectType (v : Value) (ty : Ty) (context : TypeContext) (span : Option Span) : BuildM Unit :=
  if v.ty = ty then pure () else fail span (.typeMismatch context (.exactly ty) v.ty)

end SlotIR.Lowering
