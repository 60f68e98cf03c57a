import SlotIR.Proofs.SourceProgram
import SlotIR.Lowering.Function

/-!
# Checking trees

Whether a tree is a program, decided on the tree alone. The checker writes no code. It keeps the
types of the variables in scope, the names of globals, what is known of each function, and the
function whose body it is in, and it stops at the first error. Reading a variable, writing one,
converting, testing and calling take an instruction, and only bodies have a place for those
(`Checking.emit`).
-/

namespace SlotIR.Checking

open Syntax (Node Span)
open Lowering (Error Cause Malformation TypeContext)

/-! ## States -/

/-- What is known of a function. -/
structure Known where
  signature : Signature
  hasBody : Bool
deriving DecidableEq, Repr

/-- What is known at a place of a tree. -/
structure Static where
  /-- The types of the variables of each open scope, the innermost scope first. -/
  scopes : List (List (String × Ty)) := []
  /-- The names of the variables of file scope. -/
  globals : List String := []
  functions : List (String × Known) := []
  /-- The function whose body this is, and what it returns. -/
  enclosing : Option (String × Ty) := none
deriving DecidableEq, Repr

namespace Static

/-- The type of the innermost variable with a name. -/
def typeOf? (s : Static) (name : String) : Option Ty :=
  s.scopes.flatten.lookup name

/-- Whether the innermost scope has a variable with a name. -/
def binds (s : Static) (name : String) : Bool :=
  s.scopes.head?.any fun scope => (scope.lookup name).isSome

/-- Adds a variable to the innermost scope. -/
def bind (s : Static) (name : String) (ty : Ty) : Static :=
  match s.scopes with
  | [] => s
  | scope :: outer => { s with scopes := ((name, ty) :: scope) :: outer }

/-- Notes that a function has a body. -/
def define (s : Static) (name : String) : Static :=
  { s with
    functions := s.functions.map fun p =>
      if p.1 = name then (p.1, { p.2 with hasBody := true }) else p }

end Static

/-- A step of checking. -/
abbrev CheckM := EStateM (Fault Error) Static

/-- Checks a node and gives the type of its value, if it has one. -/
abbrev Check := Node → CheckM (Option Ty)

/-- Stops with an error. -/
def reject {α : Type} (span : Option Span) (cause : Cause) : CheckM α :=
  throw (.error { span, cause })

/-- Goes on with what was read off a tree, or stops with its error. -/
def accept {α : Type} : Except Error α → CheckM α
  | .ok a => pure a
  | .error e => throw (.error e)

/-- An instruction or a terminator: there is a place for it in bodies only. -/
def emit : CheckM Unit := do
  match (← get).enclosing with
  | some _ => return ()
  | none => reject none (.malformed .statementOutside)

/-- Checks in a scope of its own. -/
def inScope {α : Type} (body : CheckM α) : CheckM α := do
  modify fun s => { s with scopes := [] :: s.scopes }
  let a ← body
  modify fun s => { s with scopes := s.scopes.tail }
  return a

/-! ## Values -/

/-- The type of a node that must have a value. -/
def checkValue (check : Check) (n : Node) : CheckM Ty := do
  match ← check n with
  | some ty => return ty
  | none => reject n.span (.typeMismatch .expression .someValue .void)

/-- The types of nodes that must have values, in order. -/
def checkValues (check : Check) : List Node → CheckM (List Ty)
  | [] => pure []
  | n :: ns => do
    let ty ← checkValue check n
    let tys ← checkValues check ns
    return ty :: tys

/-- The type of the variable that an identifier names. -/
def variableType (n : Node) : CheckM Ty := do
  match (← get).typeOf? n.text with
  | some ty => return ty
  | none => reject n.span (.undefinedIdentifier n.text)

/-- An identifier as a value: its variable is read. -/
def checkIdentifier (n : Node) : CheckM Ty := do
  let ty ← variableType n
  emit
  return ty

/-- A type must be the one that is needed. -/
def expectType (found ty : Ty) (context : TypeContext) (span : Option Span) : CheckM Unit :=
  if found = ty then pure () else reject span (.typeMismatch context (.exactly ty) found)

/-- Types of arguments must be those of the parameters. -/
def expectTypes (call : Option Span) : List Ty → List Ty → List Node → CheckM Unit
  | found :: rest, ty :: tys, n :: ns => do
    expectType found ty .callArgument (n.spanOr call)
    expectTypes call rest tys ns
  | _, _, _ => pure ()

/-- Any arithmetic type converts to any other, by an instruction. -/
def checkConversion (found ty : Ty) (context : TypeContext) (span : Option Span) : CheckM Unit :=
  if found = ty then pure ()
  else if found.isArithmetic && ty.isArithmetic then emit
  else reject span (.typeMismatch context (.exactly ty) found)

/-- Values of arithmetic types can be tested. -/
def checkCondition (ty : Ty) (span : Option Span) : CheckM Unit :=
  if ty.isArithmetic then emit else reject span (.typeMismatch .condition .arithmeticType ty)

/-! ## Variables -/

def duplicateVariable {α : Type} (name : Node) : CheckM α :=
  reject name.span (.duplicateDefinition .var name.text)

/-- Brings a variable into scope. -/
def bindVariable (name : Node) (ty : Ty) : CheckM Unit := do
  let s ← get
  if s.binds name.text then duplicateVariable name else set (s.bind name.text ty)

/-- Checks a variable of a function. The initializer does not see the variable. -/
def checkLocal (check : Check) (name : Node) (ty : Ty) (init : Option Node) : CheckM Unit := do
  if (← get).binds name.text then duplicateVariable name
  else
    match init with
    | none => bindVariable name ty
    | some init =>
      let found ← checkValue check init
      expectType found ty .initializer (init.spanOr name.span)
      emit
      bindVariable name ty

/-- The type of a literal. -/
def literalType? (n : Node) : Option Ty :=
  match n.kind with
  | .int => some .int
  | .float => some .float
  | .char => some .char
  | _ => none

/-- A global starts as a literal of its type, or as zero. -/
def globalInit (name : Node) (ty : Ty) (init : Option Node) : Except Error Unit :=
  match init with
  | none =>
    if ty.isArithmetic then .ok ()
    else Syntax.errorAt name.span (.typeMismatch .global .arithmeticType ty)
  | some init =>
    match literalType? init.unwrapped with
    | none => Syntax.errorAt name.span (.nonConstantInitializer name.text)
    | some found =>
      if found = ty then .ok ()
      else
        Syntax.errorAt (init.unwrapped.spanOr name.span)
          (.typeMismatch .initializer (.exactly ty) found)

/-- Checks a variable of file scope. -/
def checkGlobal (name : Node) (ty : Ty) (init : Option Node) : CheckM Unit := do
  let s ← get
  if name.text ∈ s.globals ∨ (s.functions.lookup name.text).isSome then duplicateVariable name
  else
    accept (globalInit name ty init)
    set { s with globals := s.globals ++ [name.text] }
    bindVariable name ty

/-- Checks a declarator that names a variable. -/
def checkVariable (check : Check) (ty : Ty) (d : Node) : CheckM Unit := do
  match d.identifier? with
  | none => reject d.span (.malformed .unnamedDeclarator)
  | some name =>
    if ty = .void then reject name.span (.typeMismatch .declaration .objectType ty)
    else
      match (← get).enclosing with
      | none => checkGlobal name ty (Source.initial? d)
      | some _ => checkLocal check name ty (Source.initial? d)

/-! ## Functions -/

/-- Registers a function, and gives what is known of it. -/
def declare (name : Node) (signature : Signature) : CheckM Known := do
  let s ← get
  if name.text ∈ s.globals then reject name.span (.duplicateDefinition .function name.text)
  else
    match s.functions.lookup name.text with
    | none =>
      let known : Known := { signature, hasBody := false }
      set { s with functions := s.functions ++ [(name.text, known)] }
      return known
    | some known =>
      if known.signature ≠ signature then
        reject name.span (.signatureConflict name.text known.signature signature)
      else return known

/-- Checks a declarator that names a function. -/
def checkPrototype (ret : Ty) (d : Node) : CheckM Unit := do
  let declarator ← accept d.functionDeclarator
  let _ ← declare declarator.name (declarator.signature ret)

/-- Checks declarators in order. -/
def checkDeclarators (check : Check) (ty : Ty) : List Node → CheckM Unit
  | [] => pure ()
  | d :: ds => do
    if d.kind = .functionDeclarator then checkPrototype ty d else checkVariable check ty d
    checkDeclarators check ty ds

/-- Checks a declaration. -/
def checkDeclaration (check : Check) (n : Node) : CheckM (Option Ty) := do
  let ty ← accept n.specifiedType
  checkDeclarators check ty n.declarators
  return none

/-- Brings parameters into scope. -/
def bindParams : List (Node × Ty) → CheckM Unit
  | [] => pure ()
  | p :: ps => do
    bindVariable p.1 p.2
    bindParams ps

/-- Checks the body of a function. -/
def checkBody (check : Check) (name : String) (params : List (Node × Ty)) (ret : Ty) (body : Node) :
    CheckM Unit := do
  modify fun s => { s.define name with enclosing := some (name, ret) }
  inScope do
    bindParams params
    let _ ← check body
  modify fun s => { s with enclosing := none }

/-- Checks a function definition. -/
def checkDefinition (check : Check) (n : Node) : CheckM (Option Ty) := do
  match n.nth? 0, n.child? .functionDeclarator, n.child? .compoundStatement with
  | some specifiers, some declaratorNode, some body =>
    let ret ← accept specifiers.specifiedType
    let declarator ← accept declaratorNode.functionDeclarator
    let name := declarator.name
    match (← get).enclosing with
    | some outer => reject n.span (.malformed (.nestedDefinition name.text outer.1))
    | none =>
      let params ← accept (Lowering.namedParams n name.text declarator.params)
      let known ← declare name (declarator.signature ret)
      if known.hasBody then reject name.span (.duplicateDefinition .function name.text)
      else
        checkBody check name.text params ret body
        return none
  | _, _, _ => reject n.span (.malformed .incompleteDefinition)

/-- Checks a call. The arguments come before their number. -/
def checkCall (check : Check) (n : Node) : CheckM (Option Ty) := do
  match (n.nth? 0).bind Node.identifier? with
  | none => reject n.span (.malformed .noCallee)
  | some callee =>
    match (← get).functions.lookup callee.text with
    | none => reject callee.span (.undefinedFunction callee.text)
    | some known =>
      let found ← checkValues check n.arguments
      let params := known.signature.params
      if found.length ≠ params.length then
        reject n.span (.arityMismatch callee.text found.length params.length)
      else
        expectTypes n.span found params n.arguments
        emit
        return if known.signature.ret = .void then none else some known.signature.ret

/-! ## Statements -/

/-- Checks nodes in order. -/
def checkAll (check : Check) : List Node → CheckM Unit
  | [] => pure ()
  | n :: ns => do
    let _ ← check n
    checkAll check ns

/-- Checks a conditional. Each arm is a scope of its own. -/
def checkIf (check : Check) (n : Node) : CheckM (Option Ty) := do
  match n.nth? 0, n.nth? 1 with
  | some condNode, some thenNode =>
    let ty ← checkValue check condNode
    checkCondition ty (condNode.spanOr n.span)
    let _ ← inScope (check thenNode)
    match n.nth? 2 with
    | none => return none
    | some elseNode =>
      let _ ← inScope (check elseNode)
      return none
  | _, _ => reject n.span (.malformed .incompleteIf)

/-- Checks a return. Its value must convert to the return type. -/
def checkReturn (check : Check) (n : Node) : CheckM (Option Ty) := do
  match (← get).enclosing with
  | none => reject n.span (.malformed .returnOutside)
  | some f =>
    match n.nth? 0 with
    | none =>
      if f.2 = .void then return none else reject n.span (.typeMismatch .ret (.exactly f.2) .void)
    | some e =>
      let found ← checkValue check e
      if f.2 = .void then reject (e.spanOr n.span) (.typeMismatch .ret (.exactly f.2) found)
      else
        checkConversion found f.2 .ret (e.spanOr n.span)
        return none

/-- Checks an assignment. The target comes before the value. -/
def checkAssignment (check : Check) (n : Node) : CheckM (Option Ty) := do
  match n.nth? 0, n.nth? 1 with
  | some targetNode, some e =>
    let target := targetNode.unwrapped
    if target.kind ≠ .identifier then reject (target.spanOr n.span) (.invalidTarget target.kind)
    else
      let ty ← variableType target
      let found ← checkValue check e
      expectType found ty .assignment (e.spanOr n.span)
      emit
      return some found
  | _, _ => reject n.span (.malformed .incompleteAssignment)

/-! ## Trees -/

/-- Checks a node whose descendants are checked by `check`. -/
def checkNode (check : Check) (n : Node) : CheckM (Option Ty) :=
  match n.kind with
  | .translationUnit | .statementList | .compoundStatement | .declarationList => do
    checkAll check n.children
    return none
  | .functionDefinition => checkDefinition check n
  | .declaration => checkDeclaration check n
  | .ifElseStatement => checkIf check n
  | .returnExpr => checkReturn check n
  | .assignmentExpression => checkAssignment check n
  | .functionCall => checkCall check n
  | .expression =>
    match n.children with
    | [inner] => check inner
    | _ => reject n.span (.malformed .expressionArity)
  | .int => pure (some .int)
  | .float => pure (some .float)
  | .char => pure (some .char)
  | .identifier => do
    let ty ← checkIdentifier n
    return some ty
  | .functionDeclarator | .parameterList | .parameterDeclaration | .declarationSpecifiers
  | .typeSpecifier | .typeQualifier | .storageClassSpecifier | .pointer | .initDeclaratorList
  | .initDeclarator | .argumentExpressionList => reject n.span (.malformed (.misplaced n.kind))

/-- Checks a tree of at most the given height. -/
def checkWithin : Nat → Check
  | 0 => fun _ => throw .exhausted
  | depth + 1 => checkNode (checkWithin depth)

/-- Checks the root of a tree. -/
def checkRoot (root : Node) : CheckM Unit := do
  if root.kind ≠ .translationUnit then reject root.span (.malformed (.rootKind root.kind))
  else let _ ← checkWithin root.height root

/-- Decides whether a tree is a program, and gives its first error if it is not. -/
def typecheck (root : Node) : Except (Fault Error) Unit :=
  match checkRoot root { scopes := [[]] } with
  | .ok _ _ => .ok ()
  | .error e _ => .error e

end SlotIR.Checking
