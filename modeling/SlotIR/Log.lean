/-!
# Log lines

A log line has a level and a target. A filter lists levels for the targets that begin with some text;
the longest such text decides.
-/

namespace SlotIR.Log

/-- How much is logged, from nothing on. -/
inductive Level where
  | off
  | error
  | warn
  | info
  | debug
  | trace
deriving DecidableEq, Repr

def Level.rank : Level → Nat
  | off => 0
  | error => 1
  | warn => 2
  | info => 3
  | debug => 4
  | trace => 5

/-- The level that a word in any letter case, or a rank, stands for. -/
def Level.ofText? (text : String) : Option Level :=
  match String.ofList (text.toList.map Char.toLower) with
  | "off" | "0" => some .off
  | "error" | "1" => some .error
  | "warn" | "2" => some .warn
  | "info" | "3" => some .info
  | "debug" | "4" => some .debug
  | "trace" | "5" => some .trace
  | _ => none

/-- A level for the targets that begin with a text. -/
structure Rule where
  target : String
  level : Level
deriving DecidableEq, Repr

/-- A filter without rules for a target logs nothing of it. -/
abbrev Filter := List Rule

/-- A rule is a level for every target, a target that is logged on every level, or a target and its
level around an equals sign. -/
def Rule.ofText? (text : String) : Option Rule :=
  match text.splitOn "=" with
  | [""] => none
  | [word] =>
    match Level.ofText? word with
    | some level => some ⟨"", level⟩
    | none => some ⟨word, .trace⟩
  | ["", _] => none
  | [target, ""] => some ⟨target, .trace⟩
  | [target, level] => (Level.ofText? level).map (⟨target, ·⟩)
  | _ => none

/-- The filter of rules between commas; errors only, if there is no rule. -/
def Filter.ofText (text : String) : Filter :=
  match (text.splitOn ",").filterMap Rule.ofText? with
  | [] => [⟨"", .error⟩]
  | rules => rules

/-- The level at which a target is logged: that of the last of the longest rules. -/
def Filter.levelOf (f : Filter) (target : String) : Level :=
  let best := f.foldl (fun (best : Option Rule) r =>
    if target.startsWith r.target then
      match best with
      | some b => if r.target.length < b.target.length then best else some r
      | none => some r
    else best) none
  match best with
  | some r => r.level
  | none => .off

/-- A line of the log. -/
structure Line where
  level : Level
  target : String
  message : String
deriving DecidableEq, Repr

def Filter.allows (f : Filter) (line : Line) : Bool :=
  line.level.rank ≤ (f.levelOf line.target).rank

/-- The coloured label of a level. -/
def Level.label : Level → String
  | trace => "\x1b[35mTRACE\x1b[0m"
  | debug => "\x1b[34mDEBUG\x1b[0m"
  | info => "\x1b[32m INFO\x1b[0m"
  | warn => "\x1b[33m WARN\x1b[0m"
  | off | error => "\x1b[31mERROR\x1b[0m"

/-- A character of a message as it is shown. The controls with which a message could steer a terminal
are spelled out; others stay. -/
def shownChar (c : Char) : String :=
  let digits := String.ofList (Nat.toDigits 16 c.toNat)
  match c with
  | '\x07' | '\x08' | '\x0c' => "\\x0" ++ digits
  | '\x1b' | '\x7f' => "\\x" ++ digits
  | c =>
    if 0x80 ≤ c.toNat ∧ c.toNat ≤ 0x9F then "\\u\x7b" ++ digits ++ "\x7d"
    else c.toString

/-- A line as it is shown, after the time. -/
def Line.text (line : Line) (time : String) : String :=
  time ++ " " ++ line.level.label ++ " \x1b[2m" ++ line.target ++ "\x1b[0m\x1b[2m:\x1b[0m " ++
    String.join (line.message.toList.map shownChar) ++ "\n"

end SlotIR.Log
