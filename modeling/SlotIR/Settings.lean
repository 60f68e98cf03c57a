import SlotIR.Toml.Reader

/-!
# Settings

A settings file describes the machine to generate code for and which results to write. Every setting
has a default.
-/

namespace SlotIR

open Toml (Item)

/-- The machine to generate code for; without a triple, the machine at hand. -/
structure Target where
  triple : Option String := none
  cpu : String := "generic"
  features : String := ""
deriving DecidableEq, Repr

/-- Which results to write and how. -/
structure OutputSettings where
  object : Option String := none
  emitIr : Bool := false
  optLevel : UInt8 := 0
deriving DecidableEq, Repr

structure Settings where
  target : Target := {}
  output : OutputSettings := {}
deriving DecidableEq, Repr

namespace Settings

/-- The value of a field, or its default. -/
def orDefault {α : Type} (default : α) (read : Item → Option α) : Option Item → Option α
  | none => some default
  | some item => read item

def level? (item : Item) : Option UInt8 :=
  (item.natBelow? 256).map UInt8.ofNat

def targetOf? (item : Item) : Option Target := do
  match ← item.fields? ["triple", "cpu", "features"] with
  | [triple, cpu, features] =>
    let default : Target := {}
    return {
      triple := ← orDefault none (fun i => i.string?.map some) triple
      cpu := ← orDefault default.cpu Item.string? cpu
      features := ← orDefault default.features Item.string? features }
  | _ => none

def outputOf? (item : Item) : Option OutputSettings := do
  match ← item.fields? ["object", "emit_ir", "opt_level"] with
  | [object, emitIr, optLevel] =>
    return {
      object := ← orDefault none (fun i => i.string?.map some) object
      emitIr := ← orDefault false Item.boolean? emitIr
      optLevel := ← orDefault 0 level? optLevel }
  | _ => none

/-- The settings in a document. Other fields do not matter. -/
def ofDocument? (text : String) : Option Settings := do
  match ← (← Toml.parse? text).fields? ["target", "output"] with
  | [target, output] =>
    return {
      target := ← orDefault {} targetOf? target
      output := ← orDefault {} outputOf? output }
  | _ => none

end Settings

/-- How hard to optimize. -/
inductive OptLevel where
  | none
  | less
  | default
  | aggressive
deriving DecidableEq, Repr

def OptLevel.ofWord (n : UInt8) : OptLevel :=
  if n = 0 then .none else if n = 1 then .less else if n = 2 then .default else .aggressive

end SlotIR
