import SlotIR.Session

/-!
# Sessions in memory

A host that keeps its files in memory and records what a session says.
-/

namespace SlotIR.Session

/-- The files of a session, and what it has said. -/
structure Recording where
  files : FileTree
  /-- Which log lines are printed. -/
  filter : Log.Filter := []
  printed : String := ""
  complaints : String := ""
  report : Option Lowering.Report := none

namespace Recording

/-- What stands for the time in log lines. -/
def timeMark : String := "<time>"

instance : Host (StateM Recording) where
  readFile path := do return (← get).files.read path
  writeFile path text := do
    match (← get).files.write path text with
    | .ok files =>
      modify ({ · with files })
      return .ok ()
    | .error e => return .error e
  print text := modify fun s => { s with printed := s.printed ++ text }
  complain text := modify fun s => { s with complaints := s.complaints ++ text }
  report r _ := modify ({ · with report := some r })
  log line := modify fun s =>
    if s.filter.allows line then { s with printed := s.printed ++ line.text timeMark } else s

end Recording

end SlotIR.Session
