import SlotIR.Proofs.Effects
import SlotIR.Proofs.Steps

/-!
# Runs in one machine

A machine carries the values of the globals and the depth of calls from one run to the next. Every
call comes back to the depth it started at, with a value or with any error (`call_depth`), and no
body is entered beyond the limit on the depth. The latter is said of the machine itself: one that
does anything else beyond the limit (`Module.runDiverted`) runs in the same way
(`runDiverted_eq`). So after any finished runs nothing but the globals is left of them.
-/

namespace SlotIR

open RunM Machine

/-! ## The depth after a call -/

theorem admits_depth (writes : Set Nat) : Admits (fun s s' => s'.depth = s.depth) writes where
  refl _ := rfl
  trans h h' := h'.trans h
  store _ _ _ _ := rfl
  call {s s'} h := by
    have h : s'.depth = s.depth + 1 := h
    show s'.depth - 1 = s.depth
    omega

section depth

variable {call : Nat → List Scalar → RunM (Option Scalar)} {f : Function}

theorem runInsts_depth (hcall : ∀ callee vs s, (finalState (call callee vs s)).depth = s.depth)
    (is : List Inst) (fr : Frame) (s : Machine) :
    (finalState (runInsts call f is fr s)).depth = s.depth :=
  runInsts_relates (admits_depth .univ) (fun _ _ g _ => Set.mem_univ g)
    (fun _ _ callee _ => hcall callee) fr s

/-- However a call ends, and wherever it is cut off, calls nest as deep as before. -/
theorem call_depth (m : Module) (steps index : Nat) (args : List Scalar) (s : Machine) :
    (finalState (m.call steps index args s)).depth = s.depth :=
  call_relates (admits_depth _) steps args s

theorem run_depth (m : Module) (steps : Nat) (name : String) (args : List Scalar) (s : Machine) :
    (finalState (m.run steps name args s)).depth = s.depth := by
  unfold Module.run
  cases m.functionIndex? name with
  | none => rfl
  | some index => exact call_depth m steps index args s

end depth

/-! ## Beyond the limit -/

/-- Goes on with `x`, but turns to `detour` where calls nest deeper than allowed. -/
def unlessBeyond {α : Type} (detour x : RunM α) : RunM α := fun s =>
  if maxCallDepth < s.depth then detour s else x s

/-- Runs one block; `next` runs the blocks behind it and the bodies of the functions it calls. -/
def runBlock (next : Function → Frame → Nat → RunM (Option Scalar)) (m : Module) (f : Function)
    (fr : Frame) (index : Nat) : RunM (Option Scalar) :=
  match f.blocks[index]? with
  | none => throw (.missing (.block index))
  | some b => do
    let fr ← runInsts (callWith next m) f b.insts fr
    match b.terminator with
    | some (.jump target) => next f fr target
    | some (.branch cond onTrue onFalse) =>
      match ← orTrap f (fr.operand cond) with
      | .bool true => next f fr onTrue
      | .bool false => next f fr onFalse
      | v => fail (.trap f.name (.branchOnNonBool v))
    | some (.ret (some o)) => do
      let v ← orTrap f (fr.operand o)
      return some v
    | some (.ret none) => return none
    | some .unreachable => fail (.unreachable f.name)
    | none => fail (.missingTerminator f.name index)

/-- Runs a function as `runFrom` does, with a detour wherever a block would be entered beyond the
limit on the depth of calls. -/
def divertFrom (detour : RunM (Option Scalar)) (m : Module) :
    Nat → Function → Frame → Nat → RunM (Option Scalar)
  | 0, _, _, _ => unlessBeyond detour (throw .exhausted)
  | steps + 1, f, fr, index =>
    unlessBeyond detour (runBlock (divertFrom detour m steps) m f fr index)

/-- A run with a detour beyond the limit on the depth of calls. -/
def Module.runDiverted (m : Module) (detour : RunM (Option Scalar)) (steps : Nat) (name : String)
    (args : List Scalar) : RunM (Option Scalar) :=
  match m.functionIndex? name with
  | none => fail (.unknownFunction name)
  | some index => callWith (divertFrom detour m steps) m index args

section beyond

variable {m : Module} {s : Machine}

theorem unlessBeyond_of_le {α : Type} {detour x : RunM α} (hs : s.depth ≤ maxCallDepth) :
    unlessBeyond detour x s = x s := by
  rw [unlessBeyond, if_neg (Nat.not_lt.2 hs)]

theorem runFrom_eq_runBlock (m : Module) (steps : Nat) (f : Function) (fr : Frame) (index : Nat) :
    runFrom m (steps + 1) f fr index = runBlock (runFrom m steps) m f fr index := by
  rw [runFrom]
  rfl

theorem bind_congr_at {α β : Type} {x : RunM α} {g h : α → RunM β}
    (hgh : ∀ a s', x s = .ok a s' → g a s' = h a s') : (x >>= g) s = (x >>= h) s := by
  cases hr : x s with
  | ok a s' =>
    rw [bind_of_ok hr, bind_of_ok hr]
    exact hgh a s' hr
  | error e s' => rw [bind_of_error hr, bind_of_error hr]

/-- A call goes one level deeper from below the limit only, so what runs beyond it does not matter. -/
theorem callWith_congr {enter enter' : Function → Frame → Nat → RunM (Option Scalar)} {index : Nat}
    (h : s.depth < maxCallDepth → ∀ g fr entry,
      enter g fr entry { s with depth := s.depth + 1 } =
        enter' g fr entry { s with depth := s.depth + 1 }) (args : List Scalar) :
    callWith enter m index args s = callWith enter' m index args s := by
  rcases callWith_cases m index args s with ⟨e, he⟩ | ⟨g, entry, -, hd, he⟩
  · rw [he, he]
  · rw [he, he]
    unfold deeper
    rw [h hd]

/-- The induction is on the number of steps. Up to the limit no block is diverted, and neither
instructions nor the way on to another block change the depth; a call goes one level deeper only
from below the limit. -/
theorem divertFrom_eq (detour : RunM (Option Scalar)) :
    ∀ (steps : Nat) (f : Function) (fr : Frame) (k : Nat) {s : Machine}, s.depth ≤ maxCallDepth →
      divertFrom detour m steps f fr k s = runFrom m steps f fr k s := by
  intro steps
  induction steps with
  | zero =>
    intro f fr k s hs
    rw [divertFrom, unlessBeyond_of_le hs]
    rfl
  | succ steps ih =>
    intro f fr k s hs
    rw [divertFrom, unlessBeyond_of_le hs, runFrom_eq_runBlock]
    unfold runBlock
    cases f.blocks[k]? with
    | none => rfl
    | some b =>
      dsimp only
      have hcalls : callWith (divertFrom detour m steps) m = callWith (runFrom m steps) m := by
        funext callee vs s'
        exact callWith_congr (fun hd g fr entry => ih g fr entry hd) vs
      rw [hcalls]
      refine bind_congr_at fun fr' s' hr => ?_
      have hs' : s'.depth ≤ maxCallDepth := by
        have hback : ∀ callee vs s',
            (finalState (callWith (runFrom m steps) m callee vs s')).depth = s'.depth :=
          call_depth m steps
        have h := runInsts_depth hback b.insts fr s (f := f)
        rw [hr, finalState_ok] at h
        rw [h]
        exact hs
      rcases b.terminator with _ | (target | ⟨cond, onTrue, onFalse⟩ | ⟨_ | o⟩ | _)
      · rfl
      · exact ih f fr' target hs'
      · refine bind_congr_at fun v s'' hv => ?_
        have hs'' : s'' = s' := by
          have e := orTrap_inert (f := f) (fr'.operand cond) s'
          rwa [hv, finalState_ok] at e
        subst hs''
        rcases v with (_ | _) | c | n | x
        · exact ih f fr' onFalse hs'
        · exact ih f fr' onTrue hs'
        · rfl
        · rfl
        · rfl
      · rfl
      · rfl
      · rfl

/-- No run ever enters a block beyond the limit: what the machine would do there makes no
difference. -/
theorem runDiverted_eq (m : Module) (detour : RunM (Option Scalar)) (steps : Nat) (name : String)
    (args : List Scalar) (s : Machine) :
    m.runDiverted detour steps name args s = m.run steps name args s := by
  unfold Module.runDiverted Module.run
  cases m.functionIndex? name with
  | none => rfl
  | some index =>
    exact callWith_congr (fun hd g fr entry => divertFrom_eq detour steps g fr entry hd) args

end beyond

/-! ## Histories of finished runs -/

/-- A run comes to an end by itself: it returns, or it fails with an error of the program. -/
def Module.Finishes (m : Module) (name : String) (args : List Scalar) (s : Machine)
    (r : EStateM.Result (Fault EvalError) Machine (Option Scalar)) : Prop :=
  (∃ steps, m.run steps name args s = r) ∧
    Ends r (fun _ _ => True) fun e _ => ∃ err : EvalError, e = .error err

/-- The state of a machine after finished runs of a module, whatever was run and however the runs
ended. -/
inductive RunHistory (m : Module) : Machine → Prop
  | start : RunHistory m (.start m)
  | run {s : Machine} {name : String} {args : List Scalar}
      {r : EStateM.Result (Fault EvalError) Machine (Option Scalar)} (h : RunHistory m s)
      (hr : m.Finishes name args s r) : RunHistory m (finalState r)

section history

variable {m : Module} {name : String} {args : List Scalar} {s : Machine}
  {r r' : EStateM.Result (Fault EvalError) Machine (Option Scalar)}

/-- There is one way to finish, since more steps change nothing. -/
theorem Module.Finishes.unique (h : m.Finishes name args s r) (h' : m.Finishes name args s r') :
    r = r' := by
  have key : ∀ {steps steps' : Nat}, steps ≤ steps' → Ends (m.run steps name args s)
      (fun _ _ => True) (fun e _ => ∃ err : EvalError, e = .error err) →
      m.run steps name args s = m.run steps' name args s := by
    intro steps steps' hle hends
    rcases run_extended m hle name args s with e | ⟨s', hcut⟩
    · exact e
    · obtain ⟨err, he⟩ := hends.of_error hcut
      cases he
  obtain ⟨⟨steps, rfl⟩, hends⟩ := h
  obtain ⟨⟨steps', rfl⟩, hends'⟩ := h'
  rcases Nat.le_total steps steps' with hle | hle
  · exact key hle hends
  · exact (key hle hends').symm

theorem RunHistory.depth (h : RunHistory m s) : s.depth = 0 := by
  induction h with
  | start => rfl
  | @run s name args r _ hr ih =>
    obtain ⟨⟨steps, rfl⟩, -⟩ := hr
    rw [run_depth, ih]

/-- Between runs, a machine is a fresh one with the globals of the moment. -/
theorem RunHistory.eq_start (h : RunHistory m s) :
    { Machine.start m with globals := s.globals } = s := by
  cases s
  cases h.depth
  rfl

/-- Runs in one machine interact only through globals. After any history of finished runs the depth
of calls is zero, the next run never goes beyond the limit on it and comes back to zero, and how that
run ends, with which globals, is how it ends in a fresh machine that has the globals of the
moment. -/
theorem runs_share_globals_only (h : RunHistory m s) (name : String) (args : List Scalar) :
    s.depth = 0 ∧
    (∀ steps, (finalState (m.run steps name args s)).depth = 0) ∧
    (∀ detour steps, m.runDiverted detour steps name args s = m.run steps name args s) ∧
    (∀ r, m.Finishes name args s r ↔
      m.Finishes name args { Machine.start m with globals := s.globals } r) ∧
    ∀ r r', m.Finishes name args s r → m.Finishes name args s r' → r = r' := by
  refine ⟨h.depth, fun steps => ?_, fun detour steps => runDiverted_eq m detour steps name args s,
    fun r => ?_, fun r r' hr hr' => hr.unique hr'⟩
  · rw [run_depth, h.depth]
  · rw [h.eq_start]

end history

/-- A function that calls itself forever, after it has stored its argument. -/
def abyss : Module where
  name := "abyss"
  globals := [{ name := "mark", ty := .int, init := .int 0 }]
  functions := [{
    name := "dive"
    signature := { params := [.int], ret := .void }
    blocks := [
      { name := "entry"
        insts := [
          { result := none, ty := .void, action := .store (.global 0) (.arg 0) },
          { result := none, ty := .void, action := .call 0 [.arg 0] }]
        terminator := some (.ret none) }]
    layout := [0] }]

/-- After a run that failed at the limit on calls, another one gets as deep as in a fresh machine. -/
theorem abyss_runs_apart :
    (∀ steps, (finalState (abyss.run steps "dive" [.int 4] { globals := [.int 3] })).depth = 0) ∧
    (∀ detour steps, abyss.runDiverted detour steps "dive" [.int 4] { globals := [.int 3] } =
      abyss.run steps "dive" [.int 4] { globals := [.int 3] }) ∧
    abyss.run 257 "dive" [.int 4]
        (finalState (abyss.run 257 "dive" [.int 3] (.start abyss))) =
      .error (.error (.callDepth 256)) { globals := [.int 4] } := by
  have hdive : abyss.run 257 "dive" [.int 3] (.start abyss) =
      .error (.error (.callDepth 256)) { globals := [.int 3] } := by decide +kernel
  have hhistory : RunHistory abyss { globals := [.int 3] } :=
    .run .start ⟨⟨257, hdive⟩, ⟨_, rfl⟩⟩
  obtain ⟨-, hback, hlimit, -⟩ := runs_share_globals_only hhistory "dive" [.int 4]
  refine ⟨hback, hlimit, ?_⟩
  rw [hdive]
  decide +kernel

end SlotIR
