/-!
# Ways to stop

An operation stops early with an error of its own kind, or because it refers to a table entry that
does not exist, or because the bound on its recursion is used up. The three are kept apart: only the
first is an answer to a well-formed question.
-/

namespace SlotIR

/-- A reference to a table entry that does not exist. -/
inductive Missing where
  | function (index : Nat)
  | block (index : Nat)
deriving DecidableEq, Repr

/-- Why an operation with errors in `ε` stopped. -/
inductive Fault (ε : Type) where
  | error (e : ε)
  | missing (what : Missing)
  | exhausted
deriving DecidableEq, Repr

end SlotIR
