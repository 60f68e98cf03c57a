import SlotIR.Proofs.FileLowering

/-!
# Generated modules

What holds of the outcome of `generate` for every tree. A module is only generated from a file whose
functions are all complete, and such a file always passes verification. Verification refuses a tree
while it is lowered, if at all, and only because a body misses a return.
-/

namespace SlotIR.Lowering

open Syntax (Node)
open Builder

/-- Verification finds nothing in the module of a complete file. -/
theorem File.Inv.verify {scope : ScopeId} {file : File} (hi : file.Inv scope) :
    file.module.verify = .ok () := by
  refine Module.verify_ok.2 ⟨fun g hg => (hi.sane.globals g hg).2, hi.sane.names,
    fun i f hf => hi.sane.functionIndex? hf, fun f hf => ?_⟩
  refine Module.verifyBody_ok.2 fun hbody => ?_
  rcases hi.functions f hf with hbare | hfin
  · exact absurd (by rw [hbare]) hbody
  · exact hfin.bodyOk

theorem lowerRoot_ok {name : String} {root : Node} {u : Unit} {b : Builder}
    (h : lowerRoot root (fresh name) = .ok u b) :
    ∃ file, b = file.builder ∧ BuildsAll 0 (Source.items root) (.initial name) file ∧
      file.Inv 0 := by
  obtain ⟨file, rfl, hb⟩ := Ends.of_ok (lowerRoot_builds name root) h
  exact ⟨file, rfl, hb, (buildsAll_preserves hb (initial_inv name)).1⟩

theorem lowerRoot_verify {name : String} {root : Node} {u : Unit} {b : Builder}
    (h : lowerRoot root (fresh name) = .ok u b) : b.module.verify = .ok () := by
  obtain ⟨file, rfl, -, hi⟩ := lowerRoot_ok h
  exact hi.verify

/-- A generated module is the module of a file that was built from the items of the tree. -/
theorem generate_ok {name : String} {root : Node} {m : Module} (h : generate name root = .ok m) :
    ∃ file : File, m = file.module ∧ BuildsAll 0 (Source.items root) (.initial name) file ∧
      file.Inv 0 := by
  unfold generate at h
  cases hr : lowerRoot root (fresh name) with
  | error e b =>
    rw [hr] at h
    cases h
  | ok u b =>
    simp only [hr, lowerRoot_verify hr, Except.ok.injEq] at h
    obtain ⟨file, rfl, hb, hi⟩ := lowerRoot_ok hr
    exact ⟨file, h.symm, hb, hi⟩

theorem generate_error {name : String} {root : Node} {failure : Failure}
    (h : generate name root = .error failure) :
    ∃ b, lowerRoot root (fresh name) = .error failure.fault b ∧ failure.module = b.module := by
  unfold generate at h
  cases hr : lowerRoot root (fresh name) with
  | error e b =>
    simp only [hr, Except.error.injEq] at h
    subst h
    exact ⟨b, rfl, rfl⟩
  | ok u b =>
    simp only [hr, lowerRoot_verify hr] at h
    cases h

/-- Verification refuses a tree for one reason only: a function that should return something has a
body with an open end, which is the block that the error names. What was lowered as a whole passes. -/
theorem generate_verification (name : String) (root : Node) :
    (∀ (failure : Failure) (err : Error) (e : VerifyError), generate name root = .error failure →
      failure.fault = .error err → err.cause = .verification e →
      ∃ function block, e = .missingTerminator function block ∧
        MissesReturn failure.module function block) ∧
    ∀ (u : Unit) (b : Builder), lowerRoot root (fresh name) = .ok u b → b.module.verify = .ok () := by
  refine ⟨fun failure err e hg hf he => ?_, fun u b hb => lowerRoot_verify hb⟩
  obtain ⟨b, hb, hm⟩ := generate_error hg
  rcases Ends.of_error (lowerRoot_builds name root) hb with htree | ⟨function, block, hfault, hmiss⟩
  · obtain ⟨err', hf', htree⟩ := htree
    cases hf.symm.trans hf'
    exact absurd he (htree e)
  · cases hf.symm.trans hfault
    cases he
    rw [hm]
    exact ⟨function, block, rfl, hmiss⟩

/-- A leaf of a tree. -/
def leaf (kind : Syntax.Kind) (text : String) : Node := .mk kind (some text) none []

def branchNode (kind : Syntax.Kind) (children : List Node) : Node := .mk kind none none children

/-- A function that returns only if its argument is not zero. -/
def earlyReturn : Node :=
  branchNode .translationUnit [branchNode .functionDefinition [
    branchNode .declarationSpecifiers [leaf .typeSpecifier "int"],
    branchNode .functionDeclarator [leaf .identifier "f",
      branchNode .parameterList [branchNode .parameterDeclaration [
        branchNode .declarationSpecifiers [leaf .typeSpecifier "int"], leaf .identifier "a"]]],
    branchNode .compoundStatement [branchNode .ifElseStatement [leaf .identifier "a",
      branchNode .compoundStatement [branchNode .returnExpr [leaf .identifier "a"]]]]]]

theorem early_return_refused : ∃ failure : Failure,
    generate "early" earlyReturn = .error failure ∧
      failure.fault = .error ⟨none, .verification (.missingTerminator "f" "merge")⟩ ∧
      MissesReturn failure.module "f" "merge" := by
  have hfault : (generate "early" earlyReturn).mapError (·.fault) =
      .error (.error ⟨none, .verification (.missingTerminator "f" "merge")⟩) := by decide +kernel
  cases hg : generate "early" earlyReturn with
  | ok m =>
    rw [hg] at hfault
    cases hfault
  | error failure =>
    rw [hg] at hfault
    have hf := Except.error.inj hfault
    obtain ⟨function, block, e, hm⟩ :=
      (generate_verification "early" earlyReturn).1 failure _ _ hg hf rfl
    cases e
    exact ⟨failure, rfl, hf, hm⟩

end SlotIR.Lowering
