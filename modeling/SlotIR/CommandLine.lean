import SlotIR.Literal

/-!
# The command line

Arguments are read from left to right. An option takes its value from the same argument or the next
one; a value is examined only when the following argument has been recognised, so an argument that is
not known is reported before a bad value in front of it.
-/

namespace SlotIR

/-- What the arguments ask for. -/
structure CommandLine where
  /-- The document with the tree. -/
  input : String
  /-- The source that the tree was read from. -/
  source : Option String := none
  settings : Option String := none
  output : Option String := none
  emitIr : Bool := false
  /-- The function to run. -/
  run : Option String := none
  object : Bool := false
  optLevel : Option UInt8 := none
deriving DecidableEq, Repr

namespace CommandLine

/-- Why the arguments ask for no compilation. -/
inductive Refusal where
  | missingInput
  | unknownArgument
  /-- A value is absent, or an empty path. -/
  | invalidValue
  /-- An option is given twice. -/
  | conflict
  /-- A value for an option that takes none. -/
  | superfluousValue
  | badNumber
  | help
  | version
deriving DecidableEq, Repr

/-- What takes a value: the input, which has no name, and the options with a value. -/
inductive Valued where
  | input
  | source
  | settings
  | output
  | run
  | optLevel
deriving DecidableEq, Repr

/-- The options without a value. -/
inductive Switch where
  | emitIr
  | object
  | help
  | version
deriving DecidableEq, Repr

/-- The option of a long name. -/
def named? : String → Option (Valued ⊕ Switch)
  | "source" => some (.inl .source)
  | "config" => some (.inl .settings)
  | "output" => some (.inl .output)
  | "run" => some (.inl .run)
  | "opt-level" => some (.inl .optLevel)
  | "emit-ir" => some (.inr .emitIr)
  | "object" => some (.inr .object)
  | "help" => some (.inr .help)
  | "version" => some (.inr .version)
  | _ => none

/-- The option of a letter. -/
def lettered? : Char → Option (Valued ⊕ Switch)
  | 'c' => some (.inl .settings)
  | 'o' => some (.inl .output)
  | 'h' => some (.inr .help)
  | 'V' => some (.inr .version)
  | _ => none

/-- The arguments read so far. -/
structure Draft where
  input : Option String := none
  source : Option String := none
  settings : Option String := none
  output : Option String := none
  emitIr : Bool := false
  run : Option String := none
  object : Bool := false
  optLevel : Option UInt8 := none
  /-- What the last argument was for, and its value unless that is still to come. -/
  pending : Option (Valued × Option String) := none
  /-- Whether the input has been seen. -/
  hasInput : Bool := false

/-- A level: digits after an optional sign, at most 255. -/
def level? (text : String) : Option UInt8 :=
  let (negative, digits) := Literal.splitSign text.toList
  let n := Literal.digitsValue digits
  if digits ≠ [] ∧ digits.all Char.isDigit ∧ n ≤ 255 ∧ (negative → n = 0) then some (UInt8.ofNat n)
  else none

/-- Fills a field that may be given only once. -/
def fill {α : Type} (old : Option α) (read : String → Except Refusal α) (value : String) :
    Except Refusal (Option α) :=
  if old.isSome then .error .conflict else some <$> read value

/-- A path is not empty. -/
def path (value : String) : Except Refusal String :=
  if value = "" then .error .invalidValue else .ok value

def level (value : String) : Except Refusal UInt8 :=
  match level? value with
  | some n => .ok n
  | none => .error .badNumber

namespace Draft

/-- Stores the value of an option or the input. -/
def setValue (d : Draft) (target : Valued) (value : String) : Except Refusal Draft := do
  match target with
  | .input => return { d with input := ← fill d.input path value }
  | .source => return { d with source := ← fill d.source path value }
  | .settings => return { d with settings := ← fill d.settings path value }
  | .output => return { d with output := ← fill d.output path value }
  | .run => return { d with run := ← fill d.run .ok value }
  | .optLevel => return { d with optLevel := ← fill d.optLevel level value }

/-- Stores the pending value. -/
def settle (d : Draft) : Except Refusal Draft :=
  match d.pending with
  | none => .ok d
  | some (_, none) => .error .invalidValue
  | some (target, some value) => { d with pending := none }.setValue target value

/-- Turns on an option without a value. -/
def turnOn (d : Draft) (switch : Switch) : Except Refusal Draft := do
  let d ← d.settle
  match switch with
  | .emitIr => if d.emitIr then .error .conflict else return { d with emitIr := true }
  | .object => if d.object then .error .conflict else return { d with object := true }
  | .help => .error .help
  | .version => .error .version

/-- An option with a value in the same argument, or in the next. -/
def option (d : Draft) (target : Valued) (value : Option String) : Except Refusal Draft := do
  let d ← d.settle
  match value with
  | some value => d.setValue target value
  | none => return { d with pending := some (target, none) }

/-- An argument that is the input. -/
def positional (d : Draft) (arg : String) : Except Refusal Draft :=
  if d.hasInput then .error .unknownArgument
  else do
    let d ← d.settle
    return { d with pending := some (.input, some arg), hasInput := true }

/-- An argument after two hyphens: a name, and possibly a value after an equals sign. -/
def long (d : Draft) (arg : List Char) : Except Refusal Draft :=
  let name := String.ofList (arg.takeWhile (· ≠ '='))
  let value := match arg.dropWhile (· ≠ '=') with
    | _ :: value => some (String.ofList value)
    | [] => none
  match named? name with
  | some (.inl target) => d.option target value
  | some (.inr switch) => if value.isSome then .error .superfluousValue else d.turnOn switch
  | none => .error .unknownArgument

/-- An argument after one hyphen: letters, the last of which may be followed by its value. -/
def short (d : Draft) : List Char → Except Refusal Draft
  | [] => .ok d
  | c :: cs =>
    match lettered? c with
    | some (.inl target) =>
      d.option target <| match cs with
        | [] => none
        | '=' :: value => some (String.ofList value)
        | value => some (String.ofList value)
    | some (.inr switch) => do short (← d.turnOn switch) cs
    | none => .error .unknownArgument

/-- Reads the arguments; after `--` all of them are positional. -/
def read (d : Draft) : Bool → List String → Except Refusal Draft
  | _, [] => d.settle
  | true, arg :: args => do (← d.positional arg).read true args
  | false, arg :: args => do
    match arg.toList with
    | ['-', '-'] => d.read true args
    | '-' :: '-' :: cs => (← d.long cs).read false args
    | '-' :: c :: cs => (← d.short (c :: cs)).read false args
    | _ =>
      match d.pending with
      | some (target, none) => read { d with pending := some (target, some arg) } false args
      | _ => (← d.positional arg).read false args

end Draft

/-- Reads the arguments, without the name of the program. -/
def parse (args : List String) : Except Refusal CommandLine := do
  let d ← Draft.read {} false args
  match d.input with
  | none => .error .missingInput
  | some input =>
    return {
      input, source := d.source, settings := d.settings, output := d.output, emitIr := d.emitIr
      run := d.run, object := d.object, optLevel := d.optLevel }

end CommandLine

end SlotIR
