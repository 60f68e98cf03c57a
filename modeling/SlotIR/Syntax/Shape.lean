import SlotIR.Syntax.Node
import SlotIR.Lowering.Error
import SlotIR.Literal

/-!
# What nodes stand for

The parts that lowering reads off a node: the identifier that a declarator names, the expression
inside its wrappers, the type that specifiers name, and the parts of declarations and function
declarators.
-/

namespace SlotIR.Syntax

open Lowering (Error Cause)

namespace Node

/-- The identifier that a declarator names: the node itself, or its first child that is an
identifier, or else the identifier of its first child. -/
def identifier? : Node → Option Node
  | mk k v s [] => if k = .identifier then some (mk k v s []) else none
  | mk k v s (c :: cs) =>
    if k = .identifier then some (mk k v s (c :: cs))
    else
      match (c :: cs).find? (·.kind == .identifier) with
      | some n => some n
      | none => identifier? c

/-- The node inside any number of `expression` nodes with a single child. -/
def unwrapped : Node → Node
  | mk .expression v s [] => mk .expression v s []
  | mk .expression _ _ [inner] => inner.unwrapped
  | mk .expression v s (c :: c' :: cs) => mk .expression v s (c :: c' :: cs)
  | n => n

/-- The type specifier that a node is, holds, or holds in its `declaration_specifiers`. -/
def typeSpecifier? (n : Node) : Option Node :=
  if n.kind = .typeSpecifier then some n
  else
    match n.child? .typeSpecifier with
    | some s => some s
    | none =>
      match n.child? .declarationSpecifiers with
      | some d => d.child? .typeSpecifier
      | none => none

end Node

/-- An error that points to a node. -/
def errorAt {α : Type} (span : Option Span) (cause : Cause) : Except Error α :=
  .error { span, cause }

/-- The type that a name stands for. -/
def primitiveType (name : String) (span : Option Span) : Except Error Ty :=
  match name with
  | "int" => .ok .int
  | "float" => .ok .float
  | "char" => .ok .char
  | "void" => .ok .void
  | _ => errorAt span (.unknownType name)

/-- The type that the specifiers of a node name. Qualifiers and storage classes do not matter. -/
def Node.specifiedType (n : Node) : Except Error Ty :=
  match n.typeSpecifier? with
  | none => errorAt n.span (.malformed (.noTypeSpecifier n.kind))
  | some s => primitiveType s.text (s.spanOr n.span)

/-- The constant that a literal stands for. -/
def Node.literal? (n : Node) : Option Scalar :=
  match n.kind with
  | .int => some (.int (Literal.readInt n.text))
  | .float => some (.float (Literal.readFloat n.text))
  | .char => some (.char (Literal.readChar n.text))
  | _ => none

/-- A parameter of a function declarator. -/
structure Param where
  name : Option Node
  ty : Ty
deriving Repr

/-- What a function declarator says. -/
structure FunctionDeclarator where
  name : Node
  params : List Param
deriving Repr

/-- The signature that a declarator gives to a function with a return type. -/
def FunctionDeclarator.signature (d : FunctionDeclarator) (ret : Ty) : Signature :=
  { params := d.params.map (·.ty), ret }

/-- The parameters that nodes declare, in order. -/
def paramsOf : List Node → Except Error (List Param)
  | [] => .ok []
  | n :: ns => do
    let ty ← n.specifiedType
    let ps ← paramsOf ns
    return { name := n.child? .identifier, ty } :: ps

/-- A single unnamed `void` says that there are no parameters. -/
def withoutVoid : List Param → List Param
  | [{ name := none, ty := .void }] => []
  | ps => ps

/-- Reads a function declarator. -/
def Node.functionDeclarator (n : Node) : Except Error FunctionDeclarator := do
  match (n.nth? 0).bind Node.identifier? with
  | none => errorAt n.span (.malformed .unnamedFunction)
  | some name =>
    let declared ← match n.child? .parameterList with
      | some list => paramsOf list.children
      | none => .ok []
    let params := withoutVoid declared
    match params.find? (·.ty = .void) with
    | some p =>
      errorAt ((p.name.bind Node.span) <|> n.span)
        (.typeMismatch .parameter .parameterType .void)
    | none => return { name, params }

/-- The declarators of a declaration: those of its list, or else those among its children. -/
def Node.declarators (n : Node) : List Node :=
  match n.child? .initDeclaratorList with
  | some list => list.children
  | none =>
    n.children.filter fun c =>
      c.kind = .identifier || c.kind = .initDeclarator || c.kind = .functionDeclarator

/-- The initializer of a declarator. -/
def Node.initializer? (n : Node) : Option Node :=
  if n.kind = .initDeclarator then n.nth? 1 else none

end SlotIR.Syntax
