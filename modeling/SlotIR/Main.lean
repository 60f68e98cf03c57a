import SlotIR.Session
import Std.Time

/-!
# The program

A host for real files and the standard streams, and the program on it.
-/

namespace SlotIR.Main

/-- Where the program runs: the log filter that its surroundings ask for. -/
abbrev HostM := ReaderT Log.Filter IO

def fileError : IO.Error → FileError
  | .noFileOrDirectory .. => .notFound
  | e => .other (toString e)

/-- Does something with files. -/
def attempt {α : Type} (act : IO α) : IO (Except FileError α) := do
  match ← act.toBaseIO with
  | .ok a => return .ok a
  | .error e => return .error (fileError e)

/-- The present time, to microseconds. -/
def timeStamp : IO String := do
  let now := Std.Time.DateTime.ofTimestampWithZone (← Std.Time.Timestamp.now) Std.Time.TimeZone.UTC
  return "\x1b[2m" ++ now.format "uuuu-MM-dd'T'HH:mm:ss.SSSSSS'Z'" ++ "\x1b[0m"

instance : Host HostM where
  readFile path := attempt (IO.FS.readFile path)
  writeFile path text := attempt (IO.FS.writeFile path text)
  print text := do (← IO.getStdout).putStr text
  complain text := do (← IO.getStderr).putStr text
  report r _ := do
    (← IO.getStderr).putStr (r.header ++ "\n" ++ r.place ++ "\n" ++ r.label ++ "\n")
  log line := do
    if (← read).allows line then (← IO.getStdout).putStr (line.text (← timeStamp))

def usage : String := "Usage: cirgen [OPTIONS] <INPUT>\n"

/-- Says how the program ended. -/
def conclude (ending : Session.Ending) : IO Unit := do
  match ending with
  | .refused .help => (← IO.getStdout).putStr usage
  | .refused .version | .done | .aborted => return
  | .refused _ => (← IO.getStderr).putStr usage
  | .failed e =>
    let cause := match e.cause? with
      | some cause => "\nCaused by:\n    " ++ cause ++ "\n"
      | none => ""
    (← IO.getStderr).putStr ("Error: " ++ e.message ++ "\n" ++ cause)

end SlotIR.Main

def main (args : List String) : IO UInt32 := do
  let filter := SlotIR.Log.Filter.ofText ((← IO.getEnv "RUST_LOG").getD "")
  let ending ← (SlotIR.Session.program args : SlotIR.Main.HostM SlotIR.Session.Ending).run filter
  SlotIR.Main.conclude ending
  return ending.code.toUInt32
