import Mathlib.Data.Set.Basic
import Mathlib.Logic.Relation
import SlotIR.Proofs.Running

/-!
# What a run can change

An instruction leaves the machine as it is, stores to a global, or calls a function (`runInst_cases`);
a call fails at once or runs a body one level deeper (`callWith_cases`); the end of a block ends the
call or enters another block (`finish_cases`). Everything about the state in which a run ends follows
from these three: a relation that admits the stores of some functions and the way into a call and
back (`Admits`) holds between the first and the last state of every run of them (`call_relates`).

The main statement is the frame rule: a global that no function in reach of a call stores to keeps
its value, however the call ends and wherever it is cut off.
-/

namespace SlotIR

open RunM Machine

/-! ## Calls and stores in the text -/

/-- The function that an instruction calls. -/
def Inst.callee? (i : Inst) : Option Nat :=
  match i.action with
  | .call callee _ => some callee
  | _ => none

/-- The global that an instruction stores to. -/
def Inst.writes? (i : Inst) : Option Nat :=
  match i.action with
  | .store (.global g) _ => some g
  | _ => none

namespace Function

/-- The functions that the blocks of a function call, laid out or not. -/
def callees (f : Function) : List Nat :=
  (f.blocks.flatMap (·.insts)).filterMap (·.callee?)

/-- The globals that the blocks of a function store to, laid out or not. -/
def written (f : Function) : List Nat :=
  (f.blocks.flatMap (·.insts)).filterMap (·.writes?)

variable {f : Function} {b : Block} {k : Nat} {i : Inst}

theorem mem_callees (hb : f.blocks[k]? = some b) (hi : i ∈ b.insts) {callee : Nat}
    (h : i.callee? = some callee) : callee ∈ f.callees :=
  List.mem_filterMap.2 ⟨i, List.mem_flatMap.2 ⟨b, List.mem_of_getElem? hb, hi⟩, h⟩

theorem mem_written (hb : f.blocks[k]? = some b) (hi : i ∈ b.insts) {g : Nat}
    (h : i.writes? = some g) : g ∈ f.written :=
  List.mem_filterMap.2 ⟨i, List.mem_flatMap.2 ⟨b, List.mem_of_getElem? hb, hi⟩, h⟩

end Function

namespace Module

/-- The function with index `i` has a call of the one with index `j`. -/
def Calls (m : Module) (i j : Nat) : Prop :=
  ∃ f, m.functions[i]? = some f ∧ j ∈ f.callees

/-- The function with index `i` has a store to the global `g`. -/
def Writes (m : Module) (i g : Nat) : Prop :=
  ∃ f, m.functions[i]? = some f ∧ g ∈ f.written

/-- A call of the function with index `i` can lead to a call of the one with index `j`. -/
def Reaches (m : Module) : Nat → Nat → Prop :=
  Relation.ReflTransGen m.Calls

end Module

/-! ## Single steps -/

/-- A computation that never changes the machine. -/
def Inert {α : Type} (x : RunM α) : Prop :=
  ∀ s, finalState (x s) = s

section inert

variable {α β : Type} {x : RunM α} {g : α → RunM β} {f : Function} {fr : Frame}

theorem pure_inert (a : α) : Inert (pure a : RunM α) := fun _ => rfl

theorem fail_inert (e : EvalError) : Inert (fail e : RunM α) := fun _ => rfl

theorem orTrap_inert (r : Except Trap α) : Inert (orTrap f r) := by
  cases r with
  | ok a => exact pure_inert a
  | error t => exact fail_inert _

/-- What follows a computation that changes nothing starts where that computation started. -/
theorem Inert.bind_cases (hx : Inert x) (s : Machine) :
    (∃ a, x s = .ok a s ∧ (x >>= g) s = g a s) ∨ ∃ e, x s = .error e s ∧ (x >>= g) s = .error e s := by
  have hs := hx s
  cases hr : x s with
  | ok a s' =>
    rw [hr, finalState_ok] at hs
    subst hs
    exact .inl ⟨a, rfl, bind_of_ok hr⟩
  | error e s' =>
    rw [hr, finalState_error] at hs
    subst hs
    exact .inr ⟨e, rfl, bind_of_error hr⟩

theorem Inert.bind (hx : Inert x) (hg : ∀ a, Inert (g a)) : Inert (x >>= g) := by
  intro s
  rcases hx.bind_cases s with ⟨a, -, e⟩ | ⟨err, -, e⟩
  · rw [e]
    exact hg a s
  · rw [e]
    rfl

/-- Where what follows changes nothing, the first part decides the last state. -/
theorem finalState_bind (hg : ∀ a, Inert (g a)) (s : Machine) :
    finalState ((x >>= g) s) = finalState (x s) := by
  cases hr : x s with
  | ok a s' =>
    rw [bind_of_ok hr]
    exact hg a s'
  | error e s' => rw [bind_of_error hr, finalState_error, finalState_error]

theorem load_inert (address : Operand) : Inert (load f fr address) := by
  intro s
  unfold load
  cases address with
  | slot i =>
    dsimp only
    rcases fr.slots[i]? with _ | _ | v
    · rfl
    · rfl
    · rfl
  | global i =>
    dsimp only
    rw [bind_of_ok (get_run s)]
    cases s.globals[i]? with
    | some v => rfl
    | none => rfl
  | _ => rfl

end inert

section steps

theorem store_cases (f : Function) (fr : Frame) (address : Operand) (v : Scalar) (s : Machine) :
    finalState (store f fr address v s) = s ∨
      ∃ g, address = .global g ∧
        finalState (store f fr address v s) = { s with globals := s.globals.set g v } := by
  cases address with
  | slot i =>
    left
    unfold store
    dsimp only
    split
    · rfl
    · rfl
  | global i =>
    by_cases hi : i < s.globals.length
    · right
      rw [store_global hi]
      exact ⟨i, rfl, rfl⟩
    · left
      unfold store
      dsimp only
      rw [bind_of_ok (get_run s), if_neg hi]
      rfl
  | _ => exact .inl rfl

/-- What an instruction can do to the machine. -/
theorem runInst_cases (call : Nat → List Scalar → RunM (Option Scalar)) (f : Function) (fr : Frame)
    (i : Inst) (s : Machine) :
    finalState (runInst call f fr i s) = s ∨
    (∃ g v, i.writes? = some g ∧
      finalState (runInst call f fr i s) = { s with globals := s.globals.set g v }) ∨
    ∃ callee vs, i.callee? = some callee ∧
      finalState (runInst call f fr i s) = finalState (call callee vs s) := by
  unfold runInst Inst.writes? Inst.callee?
  cases i.action with
  | load address => exact .inl ((load_inert address).bind (fun v => pure_inert _) s)
  | store address value =>
    dsimp only
    have hv : Inert (orTrap f (fr.operand value)) := orTrap_inert _
    rcases hv.bind_cases (g := store f fr address) s with ⟨v, -, e⟩ | ⟨err, -, e⟩
    · rcases store_cases f fr address v s with hs | ⟨g, rfl, hs⟩
      · exact .inl (by rw [e, hs])
      · exact .inr (.inl ⟨g, v, rfl, by rw [e, hs]⟩)
    · exact .inl (by rw [e, finalState_error])
  | cast op value =>
    exact .inl ((orTrap_inert _).bind (fun v => (orTrap_inert _).bind fun w => pure_inert _) s)
  | compare lhs rhs =>
    refine .inl ((orTrap_inert _).bind (fun l => (orTrap_inert _).bind fun r => ?_) s)
    exact (orTrap_inert _).bind fun v => pure_inert _
  | call callee args =>
    dsimp only
    have hvs : Inert (orTrap f (fr.operands args)) := orTrap_inert _
    rcases hvs.bind_cases (g := fun vs => call callee vs >>= fun v => pure (fr.bind i.result v)) s
      with ⟨vs, -, e⟩ | ⟨err, -, e⟩
    · refine .inr (.inr ⟨callee, vs, rfl, ?_⟩)
      rw [e]
      exact finalState_bind (fun v => pure_inert _) s
    · exact .inl (by rw [e, finalState_error])

/-- The end of a block changes nothing, or enters another block of the same function. -/
theorem finish_cases (m : Module) (steps : Nat) (f : Function) (index : Nat) (t : Option Terminator)
    (fr : Frame) (s : Machine) :
    finalState (finish m steps f index t fr s) = s ∨
      ∃ j, finish m steps f index t fr s = runFrom m steps f fr j s := by
  rcases t with _ | (target | ⟨cond, onTrue, onFalse⟩ | ⟨_ | o⟩ | _)
  · exact .inl rfl
  · exact .inr ⟨target, rfl⟩
  · cases hc : fr.operand cond with
    | error t =>
      rw [finish, hc]
      exact .inl rfl
    | ok v =>
      cases v with
      | bool c => exact .inr ⟨_, finish_of_branch hc⟩
      | char _ | int _ | float _ =>
        rw [finish, hc]
        exact .inl rfl
  · exact .inl rfl
  · exact .inl ((orTrap_inert _).bind (fun v => pure_inert _) s)
  · exact .inl rfl

/-- A call fails at once, whatever `enter` is, or gets into the body of a function, one level
deeper than before. -/
theorem callWith_cases (m : Module) (index : Nat) (args : List Scalar) (s : Machine) :
    (∃ e, ∀ enter, callWith enter m index args s = .error e s) ∨
      ∃ f entry, m.functions[index]? = some f ∧ s.depth < maxCallDepth ∧
        ∀ enter, callWith enter m index args s = deeper (enter f (.start f args) entry) s := by
  cases hf : m.functions[index]? with
  | none =>
    refine .inl ⟨.missing (.function index), fun enter => ?_⟩
    rw [callWith, hf]
    rfl
  | some f =>
  cases hl : f.layout with
  | nil => exact .inl ⟨_, fun enter => callWith_noBody hf hl⟩
  | cons entry rest =>
  by_cases ha : args.length = f.signature.params.length
  · by_cases hd : s.depth < maxCallDepth
    · exact .inr ⟨f, entry, rfl, hd, fun enter => callWith_enter hf hl ha hd⟩
    · exact .inl ⟨_, fun enter => callWith_callDepth hf hl ha (Nat.not_lt.1 hd)⟩
  · exact .inl ⟨_, fun enter => callWith_argumentCount hf hl ha⟩

theorem finalState_deeper {α : Type} (x : RunM α) (s : Machine) :
    finalState (deeper x s) =
      { finalState (x { s with depth := s.depth + 1 }) with
        depth := (finalState (x { s with depth := s.depth + 1 })).depth - 1 } := by
  unfold deeper
  cases x { s with depth := s.depth + 1 } with
  | ok a s' => rfl
  | error e s' => rfl

end steps

/-! ## Whole runs -/

/-- A relation between an earlier and a later state that admits stores to the globals in `writes`,
and the way into a call and back. -/
structure Admits (R : Machine → Machine → Prop) (writes : Set Nat) : Prop where
  refl : ∀ s, R s s
  trans : ∀ {s s' s''}, R s s' → R s' s'' → R s s''
  store : ∀ (s : Machine) (v : Scalar), ∀ g ∈ writes, R s { s with globals := s.globals.set g v }
  call : ∀ {s s' : Machine}, R { s with depth := s.depth + 1 } s' →
    R s { s' with depth := s'.depth - 1 }

section relates

variable {R : Machine → Machine → Prop} {writes : Set Nat} {m : Module} {f : Function}

theorem relates_bind {α β : Type} (hR : Admits R writes) {x : RunM α} {g : α → RunM β} {s : Machine}
    (hx : R s (finalState (x s))) (hg : ∀ a s', R s' (finalState (g a s'))) :
    R s (finalState ((x >>= g) s)) := by
  cases hr : x s with
  | ok a s' =>
    rw [hr] at hx
    rw [bind_of_ok hr]
    exact hR.trans hx (hg a s')
  | error e s' =>
    rw [hr] at hx
    rw [bind_of_error hr]
    exact hx

variable {call : Nat → List Scalar → RunM (Option Scalar)}

theorem runInst_relates (hR : Admits R writes) {i : Inst} (hw : ∀ g, i.writes? = some g → g ∈ writes)
    (hcall : ∀ callee, i.callee? = some callee → ∀ vs s, R s (finalState (call callee vs s)))
    (fr : Frame) (s : Machine) : R s (finalState (runInst call f fr i s)) := by
  rcases runInst_cases call f fr i s with e | ⟨g, v, hi, e⟩ | ⟨callee, vs, hi, e⟩
  · rw [e]
    exact hR.refl s
  · rw [e]
    exact hR.store s v g (hw g hi)
  · rw [e]
    exact hcall callee hi vs s

theorem runInsts_relates (hR : Admits R writes) {is : List Inst}
    (hw : ∀ i ∈ is, ∀ g, i.writes? = some g → g ∈ writes)
    (hcall : ∀ i ∈ is, ∀ callee, i.callee? = some callee →
      ∀ vs s, R s (finalState (call callee vs s))) :
    ∀ (fr : Frame) (s : Machine), R s (finalState (runInsts call f is fr s)) := by
  induction is with
  | nil =>
    intro fr s
    exact hR.refl s
  | cons i is ih =>
    intro fr s
    obtain ⟨hw₁, hw⟩ := List.forall_mem_cons.1 hw
    obtain ⟨hcall₁, hcall⟩ := List.forall_mem_cons.1 hcall
    exact relates_bind hR (runInst_relates hR hw₁ hcall₁ fr s) (ih hw hcall)

theorem callWith_relates (hR : Admits R writes) {index : Nat}
    {enter : Function → Frame → Nat → RunM (Option Scalar)}
    (henter : ∀ g, m.functions[index]? = some g → ∀ fr entry s, R s (finalState (enter g fr entry s)))
    (args : List Scalar) (s : Machine) : R s (finalState (callWith enter m index args s)) := by
  rcases callWith_cases m index args s with ⟨e, he⟩ | ⟨g, entry, hg, -, he⟩
  · rw [he enter]
    exact hR.refl s
  · rw [he enter, finalState_deeper]
    exact hR.call (henter g hg _ entry _)

/-- The functions of a set that is closed under calls keep a relation that admits their stores. The
induction is on the number of steps; the calls of a block and the blocks behind it have one less. -/
theorem runFrom_relates (hR : Admits R writes) {among : Set Nat}
    (hclosed : ∀ i ∈ among, ∀ j, m.Calls i j → j ∈ among)
    (hw : ∀ i ∈ among, ∀ g, m.Writes i g → g ∈ writes) :
    ∀ (steps : Nat) {index : Nat} {f : Function}, index ∈ among → m.functions[index]? = some f →
      ∀ (fr : Frame) (k : Nat) (s : Machine), R s (finalState (runFrom m steps f fr k s)) := by
  intro steps
  induction steps with
  | zero =>
    intro index f _ _ fr k s
    exact hR.refl s
  | succ steps ih =>
    intro index f hin hf fr k s
    cases hb : f.blocks[k]? with
    | none =>
      rw [runFrom, hb]
      exact hR.refl s
    | some b =>
      have hstores : ∀ i ∈ b.insts, ∀ g, i.writes? = some g → g ∈ writes := fun i hi g hg =>
        hw index hin g ⟨f, hf, f.mem_written hb hi hg⟩
      have hcalls : ∀ i ∈ b.insts, ∀ callee, i.callee? = some callee → ∀ vs s,
          R s (finalState (callWith (runFrom m steps) m callee vs s)) := by
        intro i hi callee hc vs s
        have hcallee := hclosed index hin callee ⟨f, hf, f.mem_callees hb hi hc⟩
        exact callWith_relates hR (fun g hg => ih hcallee hg) vs s
      rw [runFrom_succ m steps f fr hb]
      refine relates_bind hR (runInsts_relates hR hstores hcalls fr s) fun fr' s' => ?_
      rcases finish_cases m steps f k b.terminator fr' s' with e | ⟨j, e⟩
      · rw [e]
        exact hR.refl s'
      · rw [e]
        exact ih hin hf fr' j s'

/-- A relation that admits the stores of all functions in reach of a call holds between its first
and its last state. -/
theorem call_relates {index : Nat} (hR : Admits R {g | ∃ j, m.Reaches index j ∧ m.Writes j g})
    (steps : Nat) (args : List Scalar) (s : Machine) :
    R s (finalState (m.call steps index args s)) := by
  refine callWith_relates hR (fun f hf => ?_) args s
  have hclosed : ∀ i ∈ {j | m.Reaches index j}, ∀ j, m.Calls i j → j ∈ {j | m.Reaches index j} :=
    fun i hi j hj => hi.tail hj
  exact runFrom_relates hR hclosed (fun i hi g hg => ⟨i, hi, hg⟩) steps .refl hf

end relates

/-! ## The frame rule -/

/-- A global that is not among those written is left alone. -/
theorem admits_global {g : Nat} {writes : Set Nat} (hg : g ∉ writes) :
    Admits (fun s s' => s'.globals[g]? = s.globals[g]?) writes where
  refl _ := rfl
  trans h h' := h'.trans h
  store _ _ k hk := List.getElem?_set_ne fun e : k = g => hg (e ▸ hk)
  call h := h

/-- The frame rule for globals. A global keeps its value in a call, whatever its arguments, the state
of the machine and the outcome are and wherever it is cut off, unless a function in reach of the
call stores to it. The same holds of running the function by its name. -/
theorem call_keeps_global {m : Module} {index g : Nat}
    (hg : ∀ j, m.Reaches index j → ¬ m.Writes j g) :
    (∀ (steps : Nat) (args : List Scalar) (s : Machine),
      (finalState (m.call steps index args s)).globals[g]? = s.globals[g]?) ∧
    ∀ name, m.functionIndex? name = some index →
      ∀ (steps : Nat) (args : List Scalar) (s : Machine),
        (finalState (m.run steps name args s)).globals[g]? = s.globals[g]? := by
  have hcall : ∀ (steps : Nat) (args : List Scalar) (s : Machine),
      (finalState (m.call steps index args s)).globals[g]? = s.globals[g]? := by
    intro steps args s
    refine call_relates (admits_global ?_) steps args s
    rintro ⟨j, hj, hw⟩
    exact hg j hj hw
  refine ⟨hcall, fun name hname steps args s => ?_⟩
  rw [Module.run, hname]
  exact hcall steps args s

/-- Two functions that call each other forever; the second one stores to the first global. Only a
function that neither of them calls stores to the second global. -/
def relay : Module where
  name := "relay"
  globals := [{ name := "baton", ty := .int, init := .int 0 },
    { name := "prize", ty := .int, init := .int 0 }]
  functions := [
    { name := "hand"
      signature := { params := [], ret := .void }
      blocks := [
        { name := "entry"
          insts := [{ result := none, ty := .void, action := .call 1 [] }]
          terminator := some (.jump 0) }]
      layout := [0] },
    { name := "take"
      signature := { params := [], ret := .void }
      blocks := [
        { name := "entry"
          insts := [
            { result := none, ty := .void, action := .store (.global 0) (.const (.int 5)) },
            { result := none, ty := .void, action := .call 0 [] }]
          terminator := some (.ret none) }]
      layout := [0] },
    { name := "win"
      signature := { params := [], ret := .void }
      blocks := [
        { name := "entry"
          insts := [{ result := none, ty := .void, action := .store (.global 1) (.const (.int 1)) }]
          terminator := some (.ret none) }]
      layout := [0] }]

theorem relay_reaches {j : Nat} (h : relay.Reaches 0 j) : j = 0 ∨ j = 1 := by
  induction h with
  | refl => exact .inl rfl
  | tail _ hc ih =>
    obtain ⟨f, hf, hj⟩ := hc
    rcases ih with rfl | rfl
    · cases hf
      exact .inr (List.mem_singleton.1 hj)
    · cases hf
      exact .inl (List.mem_singleton.1 hj)

/-- The two functions run into the limit on calls. What they stored until then stays, and the second
global is as it was. -/
theorem relay_keeps_prize :
    (∀ (steps : Nat) (args : List Scalar) (s : Machine),
      (finalState (relay.run steps "hand" args s)).globals[1]? = s.globals[1]?) ∧
    relay.run 9 "hand" [] { globals := [.int 0, .int 7], depth := 250 } =
      .error (.error (.callDepth 256)) { globals := [.int 5, .int 7], depth := 250 } := by
  refine ⟨(call_keeps_global fun j hj => ?_).2 "hand" rfl, by decide⟩
  rintro ⟨f, hf, hw⟩
  rcases relay_reaches hj with rfl | rfl
  · cases hf
    cases hw
  · cases hf
    cases List.mem_singleton.1 hw

end SlotIR
