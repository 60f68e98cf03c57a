import SlotIR.Proofs.Generated
import SlotIR.Proofs.Soundness
import SlotIR.Proofs.Steps

/-!
# Running generated modules

A generated module is verified, and control only goes forward in its bodies. So its runs are safe by
the soundness of verification, and they end. What remains of the ways a verified run may stop is that
code marked as unreachable is reached, and a finished body has no way to get there.
-/

namespace SlotIR

open Syntax (Node)
open Lowering

/-! ## Complete files -/

theorem Function.Shape.toForward {f : Function} {cur : Nat} (h : f.Shape cur []) : f.Forward := by
  refine ⟨fun i hi b hb j hj => ?_, ?_⟩
  · obtain ⟨hm, hlt⟩ := h.forward i hi b hb j hj
    rw [List.append_nil] at hm
    exact ⟨hm, hlt⟩
  · have hlen := h.perm.length_eq
    rw [List.append_nil, List.length_range] at hlen
    exact Nat.le_of_eq hlen

namespace Lowering

variable {scope : ScopeId} {file : File}

theorem File.Inv.forward (hi : file.Inv scope) : ∀ f ∈ file.module.functions, f.Forward := by
  intro f hf
  rcases hi.functions f hf with hbare | hfin
  · rw [hbare]
    exact ⟨nofun, Nat.le_refl _⟩
  · obtain ⟨cur, hs, -⟩ := hfin.shape
    exact hs.toForward

theorem File.Inv.verified (hi : file.Inv scope) : file.module.Verified := by
  refine ⟨fun g hg => ?_, hi.sane.signatures, fun f hf hbody => ?_, ?_⟩
  · exact Ty.isScalar_of_isArithmetic (hi.sane.globals g hg).1
  · rcases hi.functions f hf with hbare | hfin
    · exact absurd (by rw [hbare]) hbody
    · exact hfin.bodyOk
  · intro f hf i hil b hb inst hinst id hid
    rcases hi.functions f hf with hbare | hfin
    · rw [hbare] at hil
      cases hil
    · obtain ⟨cur, hs, -⟩ := hfin.shape
      exact hs.resultType? (Function.mem_results.2 ⟨i, b, hb, inst, hinst, hid, rfl⟩)

/-- No run gets to code that is marked as unreachable. -/
theorem File.Inv.not_unreachable (hi : file.Inv scope) (name : String) :
    ¬ Allowed file.module (.error (.unreachable name)) := by
  rintro ⟨f, hf, -, i, hil, hent, b, hb, ht⟩
  rcases hi.functions f hf with hbare | hfin
  · rw [hbare] at hil
    cases hil
  · exact hfin.dead i b hb ht hent

end Lowering

/-! ## Runs -/

/-- Between runs no call is going on. -/
theorem reached_depth {m : Module} (hf : ∀ f ∈ m.functions, f.Forward) {s : Machine}
    (h : Reached m s) : s.depth = 0 := by
  induction h with
  | start => rfl
  | @run s steps name args _ _ ih =>
    have hsettles := run_settles hf steps name args s
    rw [ih] at hsettles
    cases hr : m.run steps name args s with
    | ok v s' => exact hsettles.of_ok hr
    | error e s' => exact (hsettles.of_error hr).1

/-- The errors that runs of generated modules can end in. -/
def EvalError.OfProgram : EvalError → Prop
  | .unknownFunction _ | .noBody _ | .argumentCount .. | .uninitializedRead .. | .callDepth _ => True
  | .trap .. | .missingTerminator .. | .unreachable _ => False

/-- What a run of a function returns: nothing exactly if its return type is `void`, and otherwise a
value of this type. -/
def Module.RunYields (m : Module) (name : String) (v : Option Scalar) : Prop :=
  ∃ index g, m.functionIndex? name = some index ∧ m.functions[index]? = some g ∧
    (v = none ↔ g.signature.ret = .void) ∧ ∀ w, v = some w → w.ty = g.signature.ret

theorem runYields_of_returns {m : Module} {name : String} {v : Option Scalar}
    (h : m.RunReturns name v) : m.RunYields name v := by
  obtain ⟨index, g, hi, hg, hv⟩ := h
  refine ⟨index, g, hi, hg, ?_⟩
  cases v with
  | none => exact ⟨⟨fun _ => hv, fun _ => rfl⟩, nofun⟩
  | some w =>
    have hw : w.ty = g.signature.ret := hv
    refine ⟨⟨nofun, fun hvoid => ?_⟩, ?_⟩
    · have hs := w.isScalar_ty
      rw [hw, hvoid] at hs
      cases hs
    · rintro w' ⟨⟩
      exact hw

theorem file_run_safe {scope : ScopeId} {file : File} (hi : file.Inv scope) {s : Machine}
    (hs : s.Typed file.module) {steps : Nat} (hsteps : file.module.acyclicSteps ≤ steps)
    {name : String} {args : List Scalar} (hfit : file.module.RunFits name args) :
    Ends (file.module.run steps name args s)
      (fun v s' => file.module.RunYields name v ∧ s'.Typed file.module)
      (fun e s' => (∃ err : EvalError, e = .error err ∧ err.OfProgram) ∧ s'.Typed file.module) := by
  have hsound := run_sound hi.verified hs steps hfit
  have hsettles := run_settles hi.forward steps name args s
  cases hr : file.module.run steps name args s with
  | ok v s' =>
    obtain ⟨hv, hs'⟩ := hsound.of_ok hr
    exact ⟨runYields_of_returns hv, hs'⟩
  | error e s' =>
    obtain ⟨ha, hs'⟩ := hsound.of_error hr
    obtain ⟨-, hne⟩ := hsettles.of_error hr
    refine ⟨?_, hs'⟩
    cases e with
    | exhausted => exact absurd rfl (hne hsteps)
    | missing what => exact ha.elim
    | error err =>
      refine ⟨err, rfl, ?_⟩
      cases err with
      | unreachable name => exact hi.not_unreachable name ha
      | trap | missingTerminator => exact ha
      | _ => trivial

/-- Generated code never goes wrong. Whatever was run before, a run whose arguments have the types of
the parameters comes to an end: it returns what the function states, or it fails because a function is
unknown or has no body, because of the number of its arguments, because of a variable that was read too
early, or because calls nest too deep. Every global has a value of its type afterwards. -/
theorem generated_run_safe {name : String} {root : Node} {m : Module}
    (hm : generate name root = .ok m) {s : Machine} (hs : Reached m s) {steps : Nat}
    (hsteps : m.acyclicSteps ≤ steps) {function : String} {args : List Scalar}
    (hfit : m.RunFits function args) :
    Ends (m.run steps function args s) (fun v s' => m.RunYields function v ∧ s'.Typed m)
      (fun e s' => (∃ err : EvalError, e = .error err ∧ err.OfProgram) ∧ s'.Typed m) := by
  obtain ⟨file, rfl, -, hi⟩ := generate_ok hm
  have hinit : ∀ g ∈ file.module.globals, g.init.ty = g.ty := fun g hg => (hi.sane.globals g hg).2
  exact file_run_safe hi (reached_typed hi.verified hinit hs) hsteps hfit

/-- A counter that starts at three: a call sets it unless its argument is zero, and returns it. -/
def counterTree : Node :=
  branchNode .translationUnit [
    branchNode .declaration [
      branchNode .declarationSpecifiers [leaf .typeSpecifier "int"],
      branchNode .initDeclarator [leaf .identifier "count", leaf .int "3"]],
    branchNode .functionDefinition [
      branchNode .declarationSpecifiers [leaf .typeSpecifier "int"],
      branchNode .functionDeclarator [leaf .identifier "next",
        branchNode .parameterList [branchNode .parameterDeclaration [
          branchNode .declarationSpecifiers [leaf .typeSpecifier "int"], leaf .identifier "step"]]],
      branchNode .compoundStatement [
        branchNode .ifElseStatement [leaf .identifier "step",
          branchNode .compoundStatement [
            branchNode .assignmentExpression [leaf .identifier "count", leaf .identifier "step"]]],
        branchNode .returnExpr [leaf .identifier "count"]]]]

/-- The module of the counter. -/
@[irreducible] def counter : Module :=
  match generate "counter" counterTree with
  | .ok m => m
  | .error failure => failure.module

/-- After the counter was set, the next run is as safe. -/
theorem counter_run_safe :
    Ends (counter.run counter.acyclicSteps "next" [.int 0]
        (finalState (counter.run 7 "next" [.int 5] (.start counter))))
      (fun v s' => counter.RunYields "next" v ∧ s'.Typed counter)
      (fun e s' => (∃ err : EvalError, e = .error err ∧ err.OfProgram) ∧ s'.Typed counter) := by
  have hm : generate "counter" counterTree = .ok counter := by decide +kernel
  have hset : counter.RunFits "next" [.int 5] := by decide +kernel
  have hget : counter.RunFits "next" [.int 0] := by decide +kernel
  exact generated_run_safe hm (.run 7 "next" [.int 5] .start hset) (Nat.le_refl _) hget

end SlotIR
