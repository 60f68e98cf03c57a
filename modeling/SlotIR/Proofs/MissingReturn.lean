import SlotIR.Proofs.BodyFlow
import SlotIR.Proofs.FailedDefinition

/-!
# Missing returns

A definition is refused for a missing return exactly if its function should return something and
`Source.flow` takes the end of its body for code that something leads to. The rule for closing a body
only asks which blocks lead directly to its last one. So bodies are refused as well that no run comes to
the end of, namely those where `Source.passes` says so.
-/

namespace SlotIR.Lowering

open Syntax (Node)
open Builder

variable {b b' : Builder} {n body : Node} {ret : Ty} {name : String} {k : Nat}

/-! ## Ends of definitions -/

/-- The next item of a file is a definition with a body for the function `k`, which has none yet. Its
signature is accepted, and its body is lowered and closed. -/
structure LowersBody (b : Builder) (n : Node) (ret : Ty) (name : String) (body : Node) (k : Nat)
    (b' : Builder) : Prop where
  file : ∃ title root, lowerRoot root (fresh title) = .ok () b
  kind : n.kind = .functionDefinition
  lowered : ∃ declarator params b₁ f, States n ret declarator params body ∧
    declarator.name.text = name ∧
    declareFunction declarator.name (declarator.signature ret) b = .ok k b₁ ∧
    b₁.module.functions[k]? = some f ∧ f.hasBody = false ∧
    lowerBody lower k name params ret body 0 b₁ = .ok () b'

theorem lower_lowersFile (h : Nat) : LowersFile lower h := by
  obtain ⟨hbodies, hitems⟩ := lowerWithin_lowersFile h
  refine ⟨⟨hbodies.preserves, fun {n} hn => ?_⟩, fun {n} hn => ?_⟩
  · rw [← lowerWithin_eq hn]
    exact hbodies.steps hn
  · rw [← lowerWithin_eq hn]
    exact hitems hn

/-- A definition goes on with its body once its function is declared. -/
theorem lowerDefinition_of_states {declarator : Syntax.FunctionDeclarator}
    {params : List (Node × Ty)} {b₁ : Builder} {f : Function} {scope : ScopeId}
    (hc : b.cursor = none) (hs : States n ret declarator params body)
    (hd : declareFunction declarator.name (declarator.signature ret) b = .ok k b₁)
    (hf : b₁.module.functions[k]? = some f) (hbody : f.hasBody = false) :
    lowerDefinition lower n scope b =
      (lowerBody lower k declarator.name.text params ret body scope >>= fun _ =>
        verifyLowered k >>= fun _ => pure (.function k)) b₁ := by
  obtain ⟨specifiers, h0, hret⟩ := hs.returns
  obtain ⟨d, h1, hdecl⟩ := hs.declares
  unfold lowerDefinition
  rw [h0, h1, hs.does]
  dsimp only
  rw [hret, bind_of_ok (liftError_ok ret b), hdecl, bind_of_ok (liftError_ok declarator b),
    bind_of_ok (get_run b), hc]
  dsimp only
  rw [hs.names, bind_of_ok (liftError_ok params b), bind_of_ok hd, bind_of_ok (function_of_some hf),
    if_neg (by simp [hbody])]

/-- The body of a function before and after it was closed, with what the tree says about its end. -/
structure EndsBody (ret : Ty) (name : String) (body : Node) (k : Nat) (m : Module) (d d' : Draft) :
    Prop where
  inv : d.Inv k []
  closes : Closes ret d d'
  flow : d.flow = Source.flow body .live
  arrives : d.Arrives ↔ Source.passes body = true
  named : d.function.name = name
  returns : d.function.signature.ret = ret
  function : m.functions[k]? = some d'.function
  grows : d'.module.Grows m

theorem LowersBody.ends (h : LowersBody b n ret name body k b') :
    (∃ d d', EndsBody ret name body k b'.module d d') ∧
      lower n 0 b = (verifyLowered k >>= fun _ => pure (.function k)) b' := by
  obtain ⟨⟨title, root, hroot⟩, hkind, declarator, params, b₁, f, hs, rfl, hd, hf, hbody, hl⟩ := h
  obtain ⟨file, rfl, -, hi⟩ := lowerRoot_ok hroot
  obtain ⟨_, rfl, m, rfl, hreg⟩ := Ends.of_ok (declareFunction_builds hi.sane.indexed) hd
  have hlower : lower n 0 = lowerDefinition lower n 0 := by
    rw [lower_eq, lowerNode, hkind]
  rw [hlower, lowerDefinition_of_states rfl hs hd hf hbody, bind_of_ok hl, and_iff_left rfl]
  obtain ⟨specifiers, -, hret⟩ := hs.returns
  obtain ⟨node, -, hdecl⟩ := hs.declares
  obtain ⟨g, hg, hname, hsig⟩ := hreg.get
  cases hf.symm.trans hg
  have hp := Syntax.FunctionDeclarator.signature_plain (Node.functionDeclarator_ok hdecl)
    (Node.specifiedType_ok hret)
  have hbare := hi.bare_of_registers hp hreg hf hbody
  have ho := opens_of_definition hi hret hdecl hs.names hreg hf hbare
  have hbuilds := lowerBody_builds (lower_lowersFile body.height) (Nat.le_refl _) ho
  rw [hname, hsig] at hbuilds
  obtain ⟨_, rfl, d', hd', rfl⟩ := Ends.of_ok hbuilds hl
  have hleft := ho.leaves hd'
  have hk := hleft.declares.getElem? ho.function
  cases hd' with
  | @body d₁ d _ r spills emits closes =>
    obtain ⟨new, hc⟩ := ho.continues spills emits
    obtain ⟨hflow, harrives⟩ := ho.ends spills emits
    rw [hsig] at closes
    refine ⟨d, d', hc.inv, closes, hflow, harrives, hc.grows.function.name.trans hname, ?_, ?_, ?_⟩
    · exact congrArg Signature.ret (hc.grows.function.signature.trans hsig)
    · exact Draft.getElem?_put (List.getElem?_eq_some_iff.1 hk).1
    · exact put_grows hk hleft.name.symm hleft.signature.symm

/-! ## Verification -/

variable {m : Module} {d d' : Draft}

theorem closes_live_or_finished (hi : d.Inv k []) (hr : d.function.signature.ret = ret)
    (h : Closes ret d d') :
    (d' = d ∧ d.function.closedAt d.block = false ∧ ret ≠ .void ∧ d.flow = .live) ∨
      (d'.function.Finished d'.module ∧ ¬ (ret ≠ .void ∧ d.flow = .live)) := by
  cases h with
  | closed hc => exact .inr ⟨finished_of_inv hi hc, by simp [Draft.flow_of_closed hc]⟩
  | void ho hv =>
    have hfin := (closes_cases hi hr (.void ho hv)).resolve_right fun h => h.2.1 hv
    exact .inr ⟨hfin, fun h => h.1 hv⟩
  | dead ho hv hd => exact .inr ⟨finished_of_dead hi ho hd, by simp [Draft.flow_of_dead ho hd]⟩
  | live ho hv hl => exact .inl ⟨rfl, ho, hv, Draft.flow_of_live ho hl⟩

namespace EndsBody

theorem verification (h : EndsBody ret name body k m d d') :
    (ret ≠ .void ∧ Source.flow body .live = .live ∧
      ∃ block, m.verifyFunction k = Checked.violation (.missingTerminator name block)) ∨
    (¬ (ret ≠ .void ∧ Source.flow body .live = .live) ∧ m.verifyFunction k = .ok ()) := by
  rw [← h.flow]
  rcases closes_live_or_finished h.inv h.returns h.closes with ⟨rfl, ho, hv, hlive⟩ | ⟨hfin, hno⟩
  · obtain ⟨last, hb⟩ := h.inv.shape.cur_block
    refine .inl ⟨hv, hlive, last.name, ?_⟩
    rw [← h.named]
    exact verifyFunction_open h.function h.inv.shape (h.inv.typed.grow h.grows) hb ho
  · exact .inr ⟨hno, verifyFunction_finished h.function (hfin.grow h.grows)⟩

/-- The last block of a body is the one that it ended in, and closing it adds no way to it. -/
theorem last (h : EndsBody ret name body k m d d') : d'.function.layout.getLast? = some d.block ∧
    (d'.function.Reachable d.block ↔ d.function.Reachable d.block) := by
  obtain ⟨done, hl⟩ := h.inv.shape.last
  have hlast : d.function.layout.getLast? = some d.block := by
    rw [hl, List.getLast?_concat]
  have hclose : ∀ t : Terminator, d.function.closedAt d.block = false → t.successors = [] →
      (d.close t).function.layout.getLast? = some d.block ∧
        ((d.close t).function.Reachable d.block ↔ d.function.Reachable d.block) := by
    intro t ho ht
    refine ⟨?_, (h.inv.keepsFlow_close ht).reachable⟩
    rw [Draft.close_of_open ho]
    exact hlast
  cases h.closes with
  | closed | live => exact ⟨hlast, Iff.rfl⟩
  | void ho => exact hclose _ ho rfl
  | dead ho => exact hclose _ ho rfl

theorem unreachable_of_dead (h : EndsBody ret name body k m d d') (hv : ret ≠ .void)
    (hdead : Source.flow body .live = .dead) :
    ∃ last, d'.function.blocks[d.block]? = some last ∧ last.terminator = some .unreachable := by
  rw [← h.flow] at hdead
  cases h.closes with
  | closed hc =>
    rw [Draft.flow_of_closed hc] at hdead
    cases hdead
  | void ho hvoid => exact absurd hvoid hv
  | live ho _ hl =>
    rw [Draft.flow_of_live ho hl] at hdead
    cases hdead
  | dead ho =>
    obtain ⟨last, hb⟩ := h.inv.shape.cur_block
    rw [Draft.close_of_open ho]
    exact ⟨_, Function.getElem?_close_self hb, rfl⟩

end EndsBody

/-- When the body of a definition has been lowered and closed, verification fails exactly if the
function should return something and the body ends in code that something leads to. The error is then
that the function misses a terminator, and the definition fails with it; otherwise the definition
stands. If the body ends in code behind a return instead, its last block is marked as unreachable. -/
theorem missing_return_iff (h : LowersBody b n ret name body k b') :
    ((∃ e, b'.module.verifyFunction k = .error e) ↔
      ret ≠ .void ∧ Source.flow body .live = .live) ∧
    (∀ e, b'.module.verifyFunction k = .error e → ∃ block,
      e = .error (.missingTerminator name block) ∧ lower n 0 b =
        .error (.error ⟨none, .verification (.missingTerminator name block)⟩) b') ∧
    (b'.module.verifyFunction k = .ok () → lower n 0 b = .ok (.function k) b') ∧
    (ret ≠ .void → Source.flow body .live = .dead → ∃ f i last,
      b'.module.functions[k]? = some f ∧ f.layout.getLast? = some i ∧ f.blocks[i]? = some last ∧
        last.terminator = some .unreachable) := by
  obtain ⟨⟨d, d', hend⟩, hlower⟩ := h.ends
  refine ⟨?_, fun e he => ?_, fun hok => ?_, fun hv hdead => ?_⟩
  · rcases hend.verification with ⟨hv, hlive, block, hviolation⟩ | ⟨hno, hok⟩
    · exact iff_of_true ⟨_, hviolation⟩ ⟨hv, hlive⟩
    · refine iff_of_false ?_ hno
      rintro ⟨e, he⟩
      cases hok.symm.trans he
  · rcases hend.verification with ⟨-, -, block, hviolation⟩ | ⟨-, hok⟩
    · cases hviolation.symm.trans he
      exact ⟨block, rfl, hlower.trans (bind_of_error (verifyLowered_of_violation hviolation))⟩
    · cases hok.symm.trans he
  · exact hlower.trans (bind_of_ok (verifyLowered_of_ok hok))
  · obtain ⟨last, hb, ht⟩ := hend.unreachable_of_dead hv hdead
    exact ⟨_, _, last, hend.function, hend.last.1, hb, ht⟩

/-- A definition of `int f(int a)`. -/
def definitionWith (stmts : List Node) : Node :=
  branchNode .functionDefinition [
    branchNode .declarationSpecifiers [leaf .typeSpecifier "int"],
    branchNode .functionDeclarator [leaf .identifier "f",
      branchNode .parameterList [branchNode .parameterDeclaration [
        branchNode .declarationSpecifiers [leaf .typeSpecifier "int"], leaf .identifier "a"]]],
    branchNode .compoundStatement stmts]

/-- The builder after a file without items. -/
def emptyFile : Builder := finalState (lowerRoot (branchNode .translationUnit []) (fresh "main"))

/-- The lowering of the body of `definitionWith`, once its function is declared. -/
def lowerStmts (stmts : List Node) : EStateM.Result (Fault Error) Builder Unit :=
  lowerBody lower 0 "f" [(leaf .identifier "a", .int)] .int (branchNode .compoundStatement stmts) 0
    { emptyFile with module := emptyFile.module.addFunction "f" { params := [.int], ret := .int } }

theorem definitionWith_lowersBody {stmts : List Node}
    (h : lowerStmts stmts = .ok () (finalState (lowerStmts stmts))) :
    LowersBody emptyFile (definitionWith stmts) .int "f" (branchNode .compoundStatement stmts) 0
      (finalState (lowerStmts stmts)) where
  file := ⟨"main", branchNode .translationUnit [], by decide +kernel⟩
  kind := rfl
  lowered := ⟨{ name := leaf .identifier "f", params := [⟨some (leaf .identifier "a"), .int⟩] }, _, _, _,
    ⟨⟨_, rfl, by decide +kernel⟩, ⟨_, rfl, rfl⟩, rfl, rfl⟩, rfl, by decide +kernel, rfl, rfl, h⟩

/-- Both arms return, but one has more code behind its return. -/
def openEnd : List Node := [
  branchNode .ifElseStatement [leaf .identifier "a",
    branchNode .compoundStatement [branchNode .returnExpr [leaf .int "1"]],
    branchNode .compoundStatement [
      branchNode .returnExpr [leaf .identifier "a"],
      branchNode .assignmentExpression [leaf .identifier "a", leaf .int "2"]]]]

/-- Both arms return, and more code stands behind them. -/
def deadEnd : List Node := [
  branchNode .ifElseStatement [leaf .identifier "a",
    branchNode .compoundStatement [branchNode .returnExpr [leaf .int "1"]],
    branchNode .compoundStatement [branchNode .returnExpr [leaf .identifier "a"]]],
  branchNode .assignmentExpression [leaf .identifier "a", leaf .int "2"]]

theorem arms_missing_return :
    (∃ block b', lower (definitionWith openEnd) 0 emptyFile =
      .error (.error ⟨none, .verification (.missingTerminator "f" block)⟩) b') ∧
    ∃ b' f i last, lower (definitionWith deadEnd) 0 emptyFile = .ok (.function 0) b' ∧
      b'.module.functions[0]? = some f ∧ f.layout.getLast? = some i ∧ f.blocks[i]? = some last ∧
      last.terminator = some .unreachable := by
  have hopen : lowerStmts openEnd = .ok () (finalState (lowerStmts openEnd)) := by decide +kernel
  have hdead : lowerStmts deadEnd = .ok () (finalState (lowerStmts deadEnd)) := by decide +kernel
  obtain ⟨hfails, herror, -⟩ := missing_return_iff (definitionWith_lowersBody hopen)
  obtain ⟨hstands, -, hok, hmark⟩ := missing_return_iff (definitionWith_lowersBody hdead)
  constructor
  · obtain ⟨e, he⟩ := hfails.2 ⟨by decide, by decide +kernel⟩
    obtain ⟨block, -, hlower⟩ := herror e he
    exact ⟨block, _, hlower⟩
  · obtain ⟨f, i, last, hf, hi, hl, ht⟩ := hmark (by decide) (by decide +kernel)
    refine ⟨_, f, i, last, hok ?_, hf, hi, hl, ht⟩
    cases hv : (finalState (lowerStmts deadEnd)).module.verifyFunction 0 with
    | ok => rfl
    | error e => exact absurd (hstands.1 ⟨e, hv⟩).2 (by decide +kernel)

/-- A function is refused for a missing return, although control never comes to the end of its body,
exactly if it should return something and its body ends in code that something leads to, but that no
run comes to. -/
theorem unreached_end_refused_iff (h : LowersBody b n ret name body k b') :
    ∃ f last, b'.module.functions[k]? = some f ∧ f.layout.getLast? = some last ∧
      ((¬ f.Reachable last ∧
          ∃ block, b'.module.verifyFunction k = Checked.violation (.missingTerminator name block)) ↔
        ret ≠ .void ∧ Source.flow body .live = .live ∧ Source.passes body = false) := by
  obtain ⟨⟨d, d', hend⟩, -⟩ := h.ends
  obtain ⟨hlast, hreach⟩ := hend.last
  refine ⟨_, _, hend.function, hlast, ?_⟩
  rw [hreach]
  rcases hend.verification with ⟨hv, hlive, hviolation⟩ | ⟨hno, hok⟩
  · have hopen : d.function.closedAt d.block = false := by
      rw [← Draft.flow_ne_term, hend.flow, hlive]
      simp
    have harrives : d.function.Reachable d.block ↔ Source.passes body = true := by
      rw [← hend.arrives, Draft.Arrives, and_iff_right hopen]
    rw [harrives, Bool.not_eq_true, and_iff_left hviolation, and_iff_right hv, and_iff_right hlive]
  · refine iff_of_false ?_ fun h => hno ⟨h.1, h.2.1⟩
    rintro ⟨-, block, hviolation⟩
    cases hok.symm.trans hviolation

/-- A return, and behind it a conditional that does nothing. -/
def strandedBranch : List Node := [
  branchNode .returnExpr [leaf .identifier "a"],
  branchNode .ifElseStatement [leaf .identifier "a", branchNode .compoundStatement []]]

theorem stranded_branch_end : ∃ b' f last,
    LowersBody emptyFile (definitionWith strandedBranch) .int "f"
      (branchNode .compoundStatement strandedBranch) 0 b' ∧
    b'.module.functions[0]? = some f ∧ f.layout.getLast? = some last ∧ ¬ f.Reachable last ∧
    ∃ block, b'.module.verifyFunction 0 = Checked.violation (.missingTerminator "f" block) := by
  have h : lowerStmts strandedBranch = .ok () (finalState (lowerStmts strandedBranch)) := by
    decide +kernel
  have hbody := definitionWith_lowersBody h
  obtain ⟨f, last, hf, hlast, hiff⟩ := unreached_end_refused_iff hbody
  obtain ⟨hunreached, hviolation⟩ := hiff.2 ⟨by decide, by decide +kernel, by decide +kernel⟩
  exact ⟨_, f, last, hbody, hf, hlast, hunreached, hviolation⟩

/-- Statements behind a return make a function be refused: its end cannot be reached, but is said to
miss a return. -/
theorem stranded_branch_refused :
    (∃ m, generate "main" (branchNode .translationUnit [definitionWith (strandedBranch.take 1)]) =
      .ok m) ∧
    ∃ b' f last, LowersBody emptyFile (definitionWith strandedBranch) .int "f"
        (branchNode .compoundStatement strandedBranch) 0 b' ∧
      b'.module.functions[0]? = some f ∧ f.layout.getLast? = some last ∧ ¬ f.Reachable last ∧
      b'.module.verifyFunction 0 = Checked.violation (.missingTerminator "f" "merge") := by
  have h : lowerStmts strandedBranch = .ok () (finalState (lowerStmts strandedBranch)) := by
    decide +kernel
  obtain ⟨f, hf, hlast, hentry, hexit⟩ : ∃ f,
      (finalState (lowerStmts strandedBranch)).module.functions[0]? = some f ∧
      f.layout.getLast? = some 3 ∧ f.entry? = some 0 ∧
      f.terminatorAt 0 = some (.ret (some (.temp 0))) :=
    ⟨(finalState (lowerStmts strandedBranch)).module.functions.get ⟨0, by decide +kernel⟩,
      by decide +kernel⟩
  refine ⟨?_, _, f, 3, definitionWith_lowersBody h, hf, hlast, ?_, by decide +kernel⟩
  · have hok : ((generate "main" (branchNode .translationUnit
        [definitionWith (strandedBranch.take 1)])).toOption).isSome = true := by decide +kernel
    cases hg : generate "main" (branchNode .translationUnit
        [definitionWith (strandedBranch.take 1)]) with
    | ok m => exact ⟨m, rfl⟩
    | error failure =>
      rw [hg] at hok
      cases hok
  · -- the entry returns, so control never leaves it
    rintro ⟨e, he, hp⟩
    cases hentry.symm.trans he
    rcases Relation.ReflTransGen.cases_head hp with hend | ⟨i, hedge, -⟩
    · cases hend
    · obtain ⟨-, t, ht, hsucc⟩ := Function.edge_iff.1 hedge
      cases hexit.symm.trans ht
      cases hsucc

end SlotIR.Lowering
