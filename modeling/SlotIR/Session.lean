import SlotIR.CommandLine
import SlotIR.FileTree
import SlotIR.Log
import SlotIR.Lowering
import SlotIR.Lowering.Report
import SlotIR.Machine
import SlotIR.Module.Printer
import SlotIR.Path
import SlotIR.Settings
import SlotIR.Syntax.Document

/-!
# Sessions

A session compiles one tree: it reads the settings, the source and the tree, generates the module,
and writes or runs what the command line asks for. What a session needs of its surroundings is a
`Host`, so the same session works on files in memory and on real ones.
-/

namespace SlotIR

/-- What a session needs: files, and places for what it says. -/
class Host (m : Type → Type) where
  readFile : String → m (Except FileError String)
  writeFile : String → String → m (Except FileError Unit)
  print : String → m Unit
  /-- Says what is wrong. -/
  complain : String → m Unit
  /-- Shows what is wrong in the source, which is given. -/
  report : Lowering.Report → String → m Unit
  log : Log.Line → m Unit

/-- A computation that can stop has what the one below it has. -/
instance {ε : Type} {m : Type → Type} [Monad m] [Host m] : Host (ExceptT ε m) where
  readFile path := ExceptT.lift (Host.readFile path)
  writeFile path text := ExceptT.lift (Host.writeFile path text)
  print text := ExceptT.lift (Host.print text)
  complain text := ExceptT.lift (Host.complain text)
  report r text := ExceptT.lift (Host.report r text)
  log line := ExceptT.lift (Host.log line)

/-- Why a session fails. -/
inductive SessionError where
  | settingsRead (path : String) (e : FileError)
  | settingsFormat (path : String)
  | sourceRead (path : String) (e : FileError)
  | treeRead (path : String) (e : FileError)
  | treeFormat (path : String)
  | generation (path : String)
  | write (path : String) (e : FileError)
  | evaluation (e : EvalError)
  | noBackend
deriving DecidableEq, Repr

namespace SessionError

def message : SessionError → String
  | settingsRead path e => "can't read config " ++ Text.quoted path ++ ": " ++ e.message
  | settingsFormat path => "invalid config " ++ Text.quoted path
  | sourceRead path _ => "reading source " ++ path
  | treeRead path _ => "reading tree " ++ path
  | treeFormat path => "parsing tree " ++ path
  | generation path => "generation of " ++ path ++ " failed"
  | write path _ => "writing " ++ path
  | evaluation e => e.message
  | noBackend => "object emission is not available, build with the `llvm` feature"

/-- What lies behind an error, if that is known to be something else. -/
def cause? : SessionError → Option String
  | settingsRead _ e | sourceRead _ e | treeRead _ e | write _ e => some e.message
  | settingsFormat _ | treeFormat _ => some "TOML parse error"
  | generation _ | evaluation _ | noBackend => none

end SessionError

/-- How a session ends early. -/
inductive Stop where
  | failed (e : SessionError)
  /-- An error could not be shown, or code referred to something that does not exist. -/
  | aborted
deriving DecidableEq, Repr

/-- What is to be compiled, and how. -/
structure Job where
  input : String
  /-- The source of the tree: its path and its text. -/
  source : Option (String × String) := none
  optLevel : OptLevel := .none
  output : String := Path.withExtension input "o"
  emitIr : Bool := false
  emitObject : Bool := false
  target : Target := {}
deriving DecidableEq, Repr

/-- The name of the module. -/
def Job.moduleName (job : Job) : String :=
  (Path.stem? job.input).getD "main"

namespace Session

variable {m : Type → Type} [Monad m] [Host m]

/-- Reads a file, or stops. -/
def readOr (path : String) (stop : FileError → SessionError) : ExceptT Stop m String := do
  match ← Host.readFile path with
  | .ok text => return text
  | .error e => throw (.failed (stop e))

/-- The settings in a file. -/
def loadSettings (path : String) : ExceptT Stop m Settings := do
  let text ← readOr path (.settingsRead path)
  match Settings.ofDocument? text with
  | some settings => return settings
  | none => throw (.failed (.settingsFormat path))

/-- The job that a command line asks for. The command line goes before the settings. -/
def job (cl : CommandLine) : ExceptT Stop m Job := do
  let settings ← match cl.settings with
    | some path => loadSettings path
    | none => pure {}
  let source ← match cl.source with
    | some path => do pure (some (path, ← readOr path (.sourceRead path)))
    | none => pure none
  let base : Job := { input := cl.input }
  return {
    input := cl.input
    source
    optLevel := .ofWord (cl.optLevel.getD settings.output.optLevel)
    output := (cl.output <|> settings.output.object).getD base.output
    emitIr := cl.emitIr || settings.output.emitIr
    emitObject := cl.object || cl.output.isSome || settings.output.object.isSome
    target := settings.target }

/-- The text of a module. -/
def printed (module : Module) : ExceptT Stop m String :=
  match module.text with
  | .ok text => pure text
  | .error _ => throw .aborted

/-- A word in bold type of a colour. -/
def bold (colour : Nat) (word : String) : String :=
  s!"\x1b[1m\x1b[{colour}m" ++ word ++ "\x1b[39m\x1b[0m"

/-- Logs why a function was rejected, and the module with it. -/
def logRejection (e : Lowering.Error) (module : Module) : ExceptT Stop m Unit := do
  let say (message : String) : ExceptT Stop m Unit :=
    Host.log { level := .error, target := "cirgen::ir::lowering::functions", message }
  match e.cause with
  | .verification v =>
    if let some function := v.function? then
      say ("function " ++ Text.quoted function ++ " failed verification: " ++ v.message)
      say ("\n" ++ (← printed module))
  | _ => return

/-- Shows an error of generation: in the source, if there is one. -/
def explain (job : Job) (e : Lowering.Error) : ExceptT Stop m Unit := do
  match job.source with
  | some (path, text) =>
    match e.report? path with
    | some report => Host.report report text
    | none => throw .aborted
  | none => Host.complain (bold 31 "error:" ++ " " ++ e.cause.code ++ ": " ++ e.message ++ "\n")

/-- Generates the module of a tree. -/
def generate (job : Job) (tree : Syntax.Node) : ExceptT Stop m Module := do
  match Lowering.generate job.moduleName tree with
  | .ok module =>
    Host.log {
      level := .info
      target := "cirgen::ir::lowering"
      message := "module " ++ Text.quoted module.name ++
        s!" verified, {module.functions.length} functions" }
    return module
  | .error { fault := .error e, module } =>
    logRejection e module
    explain job e
    throw (.failed (.generation job.input))
  | .error _ => throw .aborted

/-- Writes the text of the module next to the output. -/
def writeIr (job : Job) (module : Module) : ExceptT Stop m Unit := do
  let path := Path.withExtension job.output "ir"
  match ← Host.writeFile path (← printed module) with
  | .ok () => Host.print (bold 32 "Wrote" ++ " " ++ path ++ "\n")
  | .error e => throw (.failed (.write path e))

/-- Runs a function without arguments and prints what it returns. -/
def runFunction (module : Module) (name : String) : ExceptT Stop m Unit := do
  match module.run module.acyclicSteps name [] (.start module) with
  | .ok (some v) _ => Host.print (bold 32 "Ran" ++ " " ++ name ++ " returned " ++ v.valueForm ++ "\n")
  | .ok none _ => Host.print (bold 32 "Ran" ++ " " ++ name ++ "\n")
  | .error (.error e) _ => throw (.failed (.evaluation e))
  | .error _ _ => throw .aborted

/-- Does what a command line asks for. What was said or written before a failure stays. -/
def run (cl : CommandLine) : ExceptT Stop m Unit := do
  let job ← job cl
  let text ← readOr job.input (.treeRead job.input)
  let some tree := Syntax.Node.ofDocument? text | throw (.failed (.treeFormat job.input))
  let module ← generate job tree
  if job.emitIr then writeIr job module
  if let some name := cl.run then runFunction module name
  if job.emitObject then throw (.failed .noBackend)

/-- What the program calls itself. -/
def versionText : String := "cirgen 0.1.0\n"

/-- How the program ends. -/
inductive Ending where
  | done
  | refused (r : CommandLine.Refusal)
  | failed (e : SessionError)
  | aborted
deriving DecidableEq, Repr

/-- The exit code of the program. -/
def Ending.code : Ending → Nat
  | done | refused .help | refused .version => 0
  | failed _ => 1
  | refused _ => 2
  | aborted => 101

/-- The program, from its arguments to its end. -/
def program (args : List String) : m Ending := do
  match CommandLine.parse args with
  | .error .version =>
    Host.print versionText
    return .refused .version
  | .error r => return .refused r
  | .ok cl =>
    match ← (run cl).run with
    | .ok () => return .done
    | .error (.failed e) => return .failed e
    | .error .aborted => return .aborted

end Session

end SlotIR
