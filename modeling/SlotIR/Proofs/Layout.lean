import Mathlib.Logic.Relation
import SlotIR.Proofs.Generated

/-!
# The layout of generated bodies

The order in which the blocks of a generated body are laid out is an order of its control flow and
of its results: control only goes to later blocks, results are numbered as the blocks are read, and
a result is used in the block that defines it, behind its definition (`Function.LaidOut`). All of
this holds between any two steps of building, so it holds of the bodies that are left at the end.
-/

namespace SlotIR

/-! ## Layouts -/

namespace Function

/-- Control can go from the end of one block of the body to the start of another. -/
def Edge (f : Function) (i j : Nat) : Prop :=
  i ∈ f.layout ∧ ∃ b, f.blocks[i]? = some b ∧ goesTo b j = true

/-- What the layout of a body says about its blocks. -/
structure LaidOut (f : Function) : Prop where
  /-- Every block that was created has one place. -/
  perm : f.layout.Perm (List.range f.blocks.length)
  entry : f.entry? = some 0
  forward : ∀ i j, f.Edge i j → j ∈ f.layout ∧ f.layout.idxOf i < f.layout.idxOf j
  acyclic : ∀ i, ¬ Relation.TransGen f.Edge i i
  source : f.predecessors 0 = .ok []
  /-- Results are numbered in the order in which they are read. -/
  ids : f.layout.flatMap f.idsAt = List.range f.nextValue
  owner : ∀ i j id, id ∈ f.idsAt i → id ∈ f.idsAt j → i = j
  uses : ∀ (i : Nat) (b : Block), f.blocks[i]? = some b → b.UsesOwn

variable {f : Function} {i j : Nat}

theorem lt_of_idsAt {id : Nat} (h : id ∈ f.idsAt i) : i < f.blocks.length := by
  by_contra hge
  rw [idsAt, List.getElem?_eq_none (Nat.not_lt.1 hge)] at h
  cases h

namespace Shape

variable {cur : Nat} {pend : List Nat}

theorem idxOf_lt_of_path (h : f.Shape cur pend) (hp : Relation.TransGen f.Edge i j) :
    f.layout.idxOf i < f.layout.idxOf j := by
  have step : ∀ {i j : Nat}, f.Edge i j → f.layout.idxOf i < f.layout.idxOf j := by
    rintro i j ⟨hi, b, hb, hg⟩
    exact (h.forward i hi b hb j hg).2
  induction hp with
  | single he => exact step he
  | tail _ he ih => exact ih.trans (step he)

theorem predecessors_entry (h : f.Shape cur pend) : f.predecessors 0 = .ok [] := by
  obtain ⟨ps, hps⟩ := predecessors_of_exists
    (fun i hi => ⟨_, List.getElem?_eq_getElem (h.lt_of_layout hi)⟩) 0
  rw [hps, Except.ok.injEq, List.eq_nil_iff_forall_not_mem]
  intro i hi
  obtain ⟨hil, b, hb, hg⟩ := (mem_predecessors hps).1 hi
  rw [h.not_goesTo_entry h.entry hil hb] at hg
  cases hg

/-- No two blocks define the same result. -/
theorem owner_eq (h : f.Shape cur pend) {id : Nat} (hi : id ∈ f.idsAt i) (hj : id ∈ f.idsAt j) :
    i = j := by
  have placed : ∀ {i : Nat}, id ∈ f.idsAt i → i ∈ f.layout := by
    intro i hi
    rcases List.mem_append.1 (h.mem_iff.2 (lt_of_idsAt hi)) with hl | hp
    · exact hl
    · rw [h.idsAt_pend hp] at hi
      cases hi
  obtain ⟨-, hdisj⟩ := List.nodup_flatMap.1 h.ids_nodup
  have : Std.Symm fun x y => List.Disjoint (f.idsAt x) (f.idsAt y) := ⟨fun _ _ h _ h₁ h₂ => h h₂ h₁⟩
  by_contra hne
  exact hdisj.forall (placed hi) (placed hj) hne hi hj

end Shape

theorem Finished.laidOut {m : Module} (h : f.Finished m) : f.LaidOut := by
  obtain ⟨cur, hs, -⟩ := h.shape
  refine ⟨?_, hs.entry, ?_, ?_, hs.predecessors_entry, hs.ids, ?_, ?_⟩
  · simpa using hs.perm
  · rintro i j ⟨hi, b, hb, hg⟩
    simpa using hs.forward i hi b hb j hg
  · intro i hp
    exact Nat.lt_irrefl _ (hs.idxOf_lt_of_path hp)
  · intro i j id hi hj
    exact hs.owner_eq hi hj
  · intro i b hb
    exact (h.typed.blocks i b hb).usesOwn

end Function

/-! ## Generated bodies -/

open Syntax (Node)
open Lowering

theorem Lowering.File.Inv.finished {scope : ScopeId} {file : File} (hi : file.Inv scope)
    {f : Function} (hf : f ∈ file.module.functions) (hb : f.hasBody = true) :
    f.Finished file.module := by
  rcases hi.functions f hf with hbare | hfin
  · rw [hbare] at hb
    cases hb
  · exact hfin

/-- Every body of a generated module is laid out so that control only goes forward: its blocks are
all laid out, the entry first, and there is no way back to it or to any other block. Results are
numbered in this order, and each is used in its own block only, behind its definition. -/
theorem generated_laidOut {name : String} {root : Node} {m : Module}
    (hm : generate name root = .ok m) {f : Function} (hf : f ∈ m.functions)
    (hb : f.hasBody = true) : f.LaidOut := by
  obtain ⟨file, rfl, -, hi⟩ := generate_ok hm
  exact (hi.finished hf hb).laidOut

/-- A function with a condition inside of an `else`, and with code behind a `return`. -/
def mazeTree : Node :=
  branchNode .translationUnit [branchNode .functionDefinition [
    branchNode .declarationSpecifiers [leaf .typeSpecifier "int"],
    branchNode .functionDeclarator [leaf .identifier "maze",
      branchNode .parameterList [branchNode .parameterDeclaration [
        branchNode .declarationSpecifiers [leaf .typeSpecifier "int"], leaf .identifier "a"]]],
    branchNode .compoundStatement [
      branchNode .ifElseStatement [leaf .identifier "a",
        branchNode .compoundStatement [
          branchNode .returnExpr [leaf .identifier "a"],
          branchNode .assignmentExpression [leaf .identifier "a", leaf .int "2"]],
        branchNode .compoundStatement [
          branchNode .ifElseStatement [leaf .float "0.5",
            branchNode .compoundStatement [
              branchNode .assignmentExpression [leaf .identifier "a", leaf .int "3"]]]]],
      branchNode .returnExpr [leaf .identifier "a"]]]]

@[irreducible] def maze : Module :=
  match generate "maze" mazeTree with
  | .ok m => m
  | .error failure => failure.module

/-- The blocks are not laid out in the order in which they were created. -/
theorem maze_laidOut :
    ∃ f ∈ maze.functions, f.hasBody = true ∧ f.layout = [0, 1, 4, 2, 5, 6, 3] ∧ f.LaidOut := by
  have hm : generate "maze" mazeTree = .ok maze := by decide +kernel
  obtain ⟨f, hf, hb, hl⟩ : ∃ f ∈ maze.functions, f.hasBody = true ∧
      f.layout = [0, 1, 4, 2, 5, 6, 3] := by
    decide +kernel
  exact ⟨f, hf, hb, hl, generated_laidOut hm hf hb⟩

end SlotIR
