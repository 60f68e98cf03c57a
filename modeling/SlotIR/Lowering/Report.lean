import SlotIR.Lowering.Error

/-!
# Error reports

A report shows an error at its place in the source: a header, the place, and a label for the marked
range. An error without a span is shown at the start of the source.
-/

namespace SlotIR.Lowering

open Syntax (Span)
open Text (quoted)

/-- The label of the range that an error points to. -/
def Cause.label : Cause → String
  | unknownType name => "Type " ++ quoted name ++ " is not known."
  | typeMismatch context expected found =>
    "Expected " ++ expected.text ++ " in " ++ context.text ++ ", found " ++ found.text ++ "."
  | arityMismatch function found needs =>
    quoted function ++ s!" takes {needs} arguments, but {found} were given."
  | undefinedIdentifier name => "Cannot find " ++ quoted name ++ " in this scope."
  | undefinedFunction name => "Function " ++ quoted name ++ " is not declared."
  | duplicateDefinition what name =>
    "The " ++ what.text ++ " " ++ quoted name ++ " is already defined."
  | signatureConflict _ previous found =>
    "Previously declared as " ++ previous.text ++ ", now as " ++ found.text ++ "."
  | invalidTarget found => "Can't assign to a " ++ found.tag ++ ", only to variables."
  | malformed how => how.message
  | nonConstantInitializer _ => "Globals can only be initialized with a literal."
  | verification e => e.message

/-- An error as it is shown. -/
structure Report where
  header : String
  place : String
  label : String
deriving DecidableEq, Repr

/-- The report of an error in the first line of the file at `path`. There is none for a span that
starts after its end. -/
def Error.report? (e : Error) (path : String) : Option Report :=
  let span := e.span.getD ⟨0, 0⟩
  if span.stop < span.start then none
  else
    some {
      header := "[" ++ e.cause.code ++ "] Error: " ++ e.message
      place := path ++ s!":1:{span.start + 1}"
      label := e.cause.label }

end SlotIR.Lowering
