/-!
# Kinds of syntax nodes

The closed set of node kinds that a parser hands over, each with its tag.
-/

namespace SlotIR.Syntax

/-- The kind of a syntax node. -/
inductive Kind where
  | translationUnit
  | functionDefinition
  | functionDeclarator
  | parameterList
  | parameterDeclaration
  | declarationSpecifiers
  | typeSpecifier
  | typeQualifier
  | storageClassSpecifier
  | pointer
  | compoundStatement
  | statementList
  | declarationList
  | declaration
  | initDeclaratorList
  | initDeclarator
  | ifElseStatement
  | returnExpr
  | assignmentExpression
  | functionCall
  | argumentExpressionList
  | expression
  | int
  | float
  | char
  | identifier
deriving DecidableEq, Repr, Inhabited

namespace Kind

/-- Every kind, once. -/
def all : List Kind :=
  [translationUnit, functionDefinition, functionDeclarator, parameterList, parameterDeclaration,
   declarationSpecifiers, typeSpecifier, typeQualifier, storageClassSpecifier, pointer,
   compoundStatement, statementList, declarationList, declaration, initDeclaratorList,
   initDeclarator, ifElseStatement, returnExpr, assignmentExpression, functionCall,
   argumentExpressionList, expression, int, float, char, identifier]

/-- The tag of a kind. -/
def tag : Kind → String
  | translationUnit => "translation_unit"
  | functionDefinition => "function_definition"
  | functionDeclarator => "function_declarator"
  | parameterList => "parameter_list"
  | parameterDeclaration => "parameter_declaration"
  | declarationSpecifiers => "declaration_specifiers"
  | typeSpecifier => "type_specifier"
  | typeQualifier => "type_qualifier"
  | storageClassSpecifier => "storage_class_specifier"
  | pointer => "pointer"
  | compoundStatement => "compound_statement"
  | statementList => "statement_list"
  | declarationList => "declaration_list"
  | declaration => "declaration"
  | initDeclaratorList => "init_declarator_list"
  | initDeclarator => "init_declarator"
  | ifElseStatement => "if_else_statement"
  | returnExpr => "return_expr"
  | assignmentExpression => "assignment_expression"
  | functionCall => "function_call"
  | argumentExpressionList => "argument_expression_list"
  | expression => "expression"
  | int => "int"
  | float => "float"
  | char => "char"
  | identifier => "identifier"

/-- The kind with a given tag. -/
def ofTag? (tag : String) : Option Kind :=
  all.find? (·.tag == tag)

end Kind

end SlotIR.Syntax
