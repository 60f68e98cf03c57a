import SlotIR.Syntax.Node
import SlotIR.Module.Verifier

/-!
# Lowering errors

Why a syntax tree has no program. An error is a cause and the place in the source it points to; only
the place depends on the spans of the tree.
-/

namespace SlotIR.Lowering

open Syntax (Kind Span)
open Text (quoted)

/-- What kind of symbol is defined twice. -/
inductive SymbolKind where
  | var
  | function
deriving DecidableEq, Repr

def SymbolKind.text : SymbolKind → String
  | var => "variable"
  | function => "function"

/-- The type that was needed. -/
inductive Expected where
  | exactly (ty : Ty)
  | someValue
  | objectType
  | parameterType
  | arithmeticType
deriving DecidableEq, Repr

def Expected.text : Expected → String
  | exactly ty => ty.text
  | someValue => "a value"
  | objectType => "an object type"
  | parameterType => "a parameter type"
  | arithmeticType => "an arithmetic type"

/-- Where a type was needed. -/
inductive TypeContext where
  | expression
  | declaration
  | parameter
  | initializer
  | global
  | assignment
  | callArgument
  | condition
  | ret
deriving DecidableEq, Repr

def TypeContext.text : TypeContext → String
  | expression => "expression"
  | declaration => "declaration"
  | parameter => "parameter"
  | initializer => "initializer"
  | global => "global"
  | assignment => "assignment"
  | callArgument => "call argument"
  | condition => "condition"
  | ret => "return"

/-- How a tree departs from the shape that its kinds promise. -/
inductive Malformation where
  | rootKind (found : Kind)
  | misplaced (kind : Kind)
  | expressionArity
  | noTypeSpecifier (kind : Kind)
  | unnamedDeclarator
  | unnamedFunction
  | incompleteIf
  | incompleteAssignment
  | incompleteDefinition
  | noCallee
  | returnOutside
  | statementOutside
  | nestedDefinition (name outer : String)
  | unnamedParameter (function : String)
  | loadThroughValue (ty : Ty)
  | noResult
deriving DecidableEq, Repr

def Malformation.message : Malformation → String
  | rootKind found => "expected a translation_unit root, found " ++ found.tag
  | misplaced kind => kind.tag ++ " can only appear inside another construct"
  | expressionArity => "expression must have exactly one child"
  | noTypeSpecifier kind => kind.tag ++ " without a type specifier"
  | unnamedDeclarator => "declarator without a name"
  | unnamedFunction => "function declarator without a name"
  | incompleteIf => "if statement needs a condition and a body"
  | incompleteAssignment => "assignment needs a target and a value"
  | incompleteDefinition => "function definition needs specifiers, a declarator and a body"
  | noCallee => "call without a callee"
  | returnOutside => "return outside of a function"
  | statementOutside => "statement outside of a function body"
  | nestedDefinition name outer => "function " ++ quoted name ++ " defined inside " ++ quoted outer
  | unnamedParameter function => "parameter of " ++ quoted function ++ " without a name"
  | loadThroughValue ty => "load through non address of type " ++ ty.text
  | noResult => "instruction without result"

/-- Why lowering stops. -/
inductive Cause where
  | unknownType (name : String)
  | typeMismatch (context : TypeContext) (expected : Expected) (found : Ty)
  | arityMismatch (function : String) (found needs : Nat)
  | undefinedIdentifier (name : String)
  | undefinedFunction (name : String)
  | duplicateDefinition (what : SymbolKind) (name : String)
  | signatureConflict (name : String) (previous found : Signature)
  | invalidTarget (found : Kind)
  | malformed (how : Malformation)
  | nonConstantInitializer (name : String)
  | verification (e : VerifyError)
deriving DecidableEq, Repr

namespace Cause

/-- A short stable tag. -/
def code : Cause → String
  | unknownType .. => "UnknownType"
  | typeMismatch .. => "TypeMismatch"
  | arityMismatch .. => "ArityMismatch"
  | undefinedIdentifier .. => "UndefinedIdentifier"
  | undefinedFunction .. => "UndefinedFunction"
  | duplicateDefinition .. => "DuplicateDefinition"
  | signatureConflict .. => "SignatureConflict"
  | invalidTarget .. => "InvalidLValue"
  | malformed .. => "StructuralPrecondition"
  | nonConstantInitializer .. => "NonConstantInitializer"
  | verification .. => "Verification"

def message : Cause → String
  | unknownType name => "unknown type " ++ quoted name
  | typeMismatch context expected found =>
    "type mismatch in " ++ context.text ++ ": expected " ++ expected.text ++ ", found " ++
      found.text
  | arityMismatch function found needs =>
    "function " ++ quoted function ++ s!" takes {needs} arguments, {found} given"
  | undefinedIdentifier name => "cannot find identifier " ++ quoted name
  | undefinedFunction name => "function " ++ quoted name ++ " is not defined"
  | duplicateDefinition what name => what.text ++ " " ++ quoted name ++ " is already defined"
  | signatureConflict name previous found =>
    "function " ++ quoted name ++ " redefined with a different type: previous " ++
      previous.text ++ ", now " ++ found.text
  | invalidTarget found => "assignee should be an lvalue, found " ++ found.tag
  | malformed how => "malformed tree: " ++ how.message
  | nonConstantInitializer name =>
    "global " ++ quoted name ++ " must be initialized with a constant"
  | verification e => "verification failed: " ++ e.message

end Cause

/-- A cause and the place it points to, if one is known. -/
structure Error where
  span : Option Span
  cause : Cause
deriving DecidableEq, Repr

def Error.message (e : Error) : String := e.cause.message

end SlotIR.Lowering
