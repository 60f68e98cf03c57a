import SlotIR.Proofs.FilePrefixes
import SlotIR.Proofs.LexicalContext

/-!
# Definitions that fail

A function definition can fail before it touches the module, or while its body is built or verified.
In the first case nothing has happened. In the second the function has got a body, whatever is wrong
with it, and the rest of the module is as it was, but for functions that the body declared
(`Module.GainsBody`). Inside of a function every definition fails, and nothing happens.
-/

namespace SlotIR

theorem Function.Extends.hasBody {f f' : Function} (h : f.Extends f') (hf : f.hasBody = true) :
    f'.hasBody = true := by
  obtain ⟨rest, e⟩ := h.layout
  simp_all [Function.hasBody, ← e]

namespace Module

/-- The function with index `k` has a body now, and nothing else changed. -/
structure FillsBody (k : Nat) (name : String) (signature : Signature) (m m' : Module) : Prop where
  body : ∃ f, m'.functions[k]? = some f ∧ f.name = name ∧ f.signature = signature ∧ f.hasBody = true
  rest : m.ChangesOnly k m'

/-- The name of the function with an index; one that is not there yet gets the given name. -/
def nameAt (m : Module) (k : Nat) (name : String) : String :=
  (m.functions[k]?).elim name (·.name)

/-- The function that `name` stands for gets its body. Before, it was declared with the same signature
and had none, or it was not there at all. -/
structure GainsBody (k : Nat) (name : String) (signature : Signature) (m m' : Module) : Prop
    extends FillsBody k (m.nameAt k name) signature m m' where
  before : (m.functionIndex? name = none ∧ k = m.functions.length) ∨
    (m.functionIndex? name = some k ∧
      ∃ f, m.functions[k]? = some f ∧ f.signature = signature ∧ f.hasBody = false)
  names : m'.functionIndex? name = some k

variable {k : Nat} {name : String} {signature : Signature} {m m' m'' : Module}

theorem FillsBody.trans (h : m.FillsBody k name signature m') (hp : m'.Persists m'')
    (hc : m'.ChangesOnly k m'') : m.FillsBody k name signature m'' := by
  obtain ⟨f, hf, hname, hsig, hbody⟩ := h.body
  obtain ⟨f', hf', hext⟩ := hp.functions k f hf
  exact ⟨⟨f', hf', hext.body.name.trans hname, hext.body.signature.trans hsig,
    hext.body.hasBody hbody⟩, h.rest.trans hc⟩

theorem nameAt_of_some {f : Function} (hf : m.functions[k]? = some f) : m.nameAt k name = f.name := by
  rw [nameAt, hf]
  rfl

theorem nameAt_length (m : Module) (name : String) : m.nameAt m.functions.length name = name := by
  rw [nameAt, List.getElem?_length]
  rfl

/-- Where tables lead from names to entries, the function that gets its body carries the name. -/
theorem GainsBody.nameAt_eq (h : m.GainsBody k name signature m') (hm : m.Indexed) :
    m.nameAt k name = name := by
  rcases h.before with ⟨-, rfl⟩ | ⟨hi, -⟩
  · exact m.nameAt_length name
  · obtain ⟨f, hf, rfl⟩ := functionIndex?_some hm hi
    exact nameAt_of_some hf

end Module

namespace Lowering

open Syntax (Node)
open Builder

variable {b b' : Builder} {n : Node} {scope : ScopeId}

/-! ## Steps of a definition -/

/-- A declaration that stands finds its function or adds it. -/
inductive Declares (name : String) (signature : Signature) (b : Builder) : Nat → Builder → Prop
  | found {k : Nat} {f : Function} (index : b.module.functionIndex? name = some k)
    (function : b.module.functions[k]? = some f) (same : f.signature = signature) :
    Declares name signature b k b
  | added (absent : b.module.functionIndex? name = none) :
    Declares name signature b b.module.functions.length
      { b with module := b.module.addFunction name signature }

theorem declareFunction_cases (name : Node) (signature : Signature) (b : Builder) :
    (∃ fault, declareFunction name signature b = .error fault b) ∨
    ∃ k b', Declares name.text signature b k b' ∧ declareFunction name signature b = .ok k b' := by
  unfold declareFunction
  rw [bind_of_ok (get_run b)]
  by_cases hg : (b.module.globalIndex? name.text).isSome
  · rw [if_pos hg]
    exact .inl ⟨_, rfl⟩
  rw [if_neg hg]
  cases hi : b.module.functionIndex? name.text with
  | none => exact .inr ⟨_, _, .added hi, rfl⟩
  | some k =>
    dsimp only
    cases hf : b.module.functions[k]? with
    | none =>
      rw [bind_of_error (function_of_none hf)]
      exact .inl ⟨_, rfl⟩
    | some f =>
    rw [bind_of_ok (function_of_some hf)]
    by_cases hs : f.signature = signature
    · rw [if_neg (not_not.2 hs)]
      exact .inr ⟨k, b, .found hi hf hs, rfl⟩
    · rw [if_pos hs]
      exact .inl ⟨_, rfl⟩

theorem Declares.function {name : String} {signature : Signature} {k : Nat}
    (h : Declares name signature b k b') :
    ∃ f, b'.module.functions[k]? = some f ∧ f.name = b.module.nameAt k name ∧
      f.signature = signature := by
  cases h with
  | found index function same => exact ⟨_, function, (Module.nameAt_of_some function).symm, same⟩
  | added =>
    exact ⟨{ name, signature }, List.getElem?_concat_length .., (b.module.nameAt_length name).symm, rfl⟩

/-- What the tree of a definition states, with names for all parameters. -/
structure States (n : Node) (ret : Ty) (declarator : Syntax.FunctionDeclarator)
    (params : List (Node × Ty)) (body : Node) : Prop where
  returns : ∃ specifiers, n.nth? 0 = some specifiers ∧ specifiers.specifiedType = .ok ret
  declares : ∃ d, n.child? .functionDeclarator = some d ∧ d.functionDeclarator = .ok declarator
  names : namedParams n declarator.name.text declarator.params = .ok params
  does : n.child? .compoundStatement = some body

/-- A definition fails before it changes anything, or it stands outside of functions and gives a body
to a function that has none. It fails with an error unless a function is missing, which inside of a
function can only be this function. -/
theorem lowerDefinition_cases (lower : Lower) (n : Node) (scope : ScopeId) (b : Builder) :
    (∃ e, lowerDefinition lower n scope b = .error (.error e) b) ∨
    (∃ fault, (∀ c, b.cursor = some c → b.module.functions[c.function]? = none) ∧
      lowerDefinition lower n scope b = .error fault b) ∨
    ∃ ret declarator params body k b' f, b.cursor = none ∧ States n ret declarator params body ∧
      Declares declarator.name.text (declarator.signature ret) b k b' ∧
      b'.module.functions[k]? = some f ∧ f.hasBody = false ∧
      lowerDefinition lower n scope b =
        (lowerBody lower k declarator.name.text params ret body scope >>= fun _ =>
          verifyLowered k >>= fun _ => pure (.function k)) b' := by
  unfold lowerDefinition
  cases h0 : n.nth? 0 with
  | none => exact .inl ⟨_, rfl⟩
  | some specifiers =>
  cases h1 : n.child? .functionDeclarator with
  | none => exact .inl ⟨_, rfl⟩
  | some d =>
  cases h2 : n.child? .compoundStatement with
  | none => exact .inl ⟨_, rfl⟩
  | some body =>
  dsimp only
  cases hret : specifiers.specifiedType with
  | error e => exact .inl ⟨_, rfl⟩
  | ok ret =>
  rw [bind_of_ok (liftError_ok ret b)]
  cases hdecl : d.functionDeclarator with
  | error e => exact .inl ⟨_, rfl⟩
  | ok declarator =>
  rw [bind_of_ok (liftError_ok declarator b), bind_of_ok (get_run b)]
  cases hc : b.cursor with
  | some c =>
    dsimp only
    cases hf : b.module.functions[c.function]? with
    | none =>
      rw [bind_of_error (function_of_none hf)]
      refine .inr (.inl ⟨_, ?_, rfl⟩)
      rintro _ ⟨⟩
      exact hf
    | some f =>
      rw [bind_of_ok (function_of_some hf)]
      exact .inl ⟨_, rfl⟩
  | none =>
  dsimp only
  cases hnames : namedParams n declarator.name.text declarator.params with
  | error e => exact .inl ⟨_, rfl⟩
  | ok params =>
  rw [bind_of_ok (liftError_ok params b)]
  rcases declareFunction_cases declarator.name (declarator.signature ret) b with
    ⟨fault, h⟩ | ⟨k, b', hd, h⟩
  · rw [bind_of_error h]
    exact .inr (.inl ⟨_, nofun, rfl⟩)
  obtain ⟨f, hf, -⟩ := hd.function
  rw [bind_of_ok h, bind_of_ok (function_of_some hf)]
  by_cases hbody : f.hasBody = true
  · rw [if_pos hbody]
    cases hd with
    | found => exact .inl ⟨_, rfl⟩
    | added =>
      -- a function that was just added has no body
      cases hf.symm.trans (List.getElem?_concat_length ..)
      cases hbody
  · rw [if_neg hbody]
    have hstates : States n ret declarator params body :=
      ⟨⟨_, h0, hret⟩, ⟨_, h1, hdecl⟩, hnames, h2⟩
    exact .inr (.inr ⟨ret, declarator, params, body, k, b', f, rfl, hstates, hd, hf,
      Bool.not_eq_true _ ▸ hbody, rfl⟩)

/-! ## Bodies that fail -/

/-- What is built inside of a function does not take its body away. -/
theorem fills_of_steady {m : Module} {name : String} {signature : Signature} {c : Cursor}
    {x : BuildM Unit} (hx : Steady scope x) (hc : b.cursor = some c)
    (h : m.FillsBody c.function name signature b.module) :
    Ends (x b) (fun _ b' => m.FillsBody c.function name signature b'.module)
      (fun _ b' => m.FillsBody c.function name signature b'.module) :=
  (hx b).mono (fun _ _ hk => h.trans hk.1.edits.persists (hk.1.confined c hc))
    fun _ _ hk => h.trans hk.edits.persists (hk.confined c hc)

/-- A body is there from its first block on, however its lowering ends. -/
theorem lowerBody_fills {k : Nat} {f : Function} (hf : b.module.functions[k]? = some f)
    {name : String} {params : List (Node × Ty)} {ret : Ty} {body : Node} :
    Ends (lowerBody lower k name params ret body scope b)
      (fun _ b' => b.module.FillsBody k f.name f.signature b'.module)
      (fun _ b' => b.module.FillsBody k f.name f.signature b'.module) := by
  have hlt := (List.getElem?_eq_some_iff.1 hf).1
  have hnamed := Draft.getElem?_put (f := { f with paramNames := params.map (·.1.text) }) hlt
  have hx : Steady scope (inChildScope scope fun inner => spillParams inner 0 params >>= fun _ =>
    lower body inner >>= fun _ => closeBody ret) := bodyText_steady lower_steady
  unfold lowerBody
  refine .bind_eq (modifyFunction_of_some hf _) (.bind_eq (enterFunction_of_some hnamed _) ?_)
  rw [Draft.put_put]
  have hend := fills_of_steady hx (b := { b with
      module := b.module.put k { f with
        paramNames := params.map (·.1.text)
        blocks := f.blocks ++ [{ name := name ++ "_block" }]
        layout := f.layout ++ [f.blocks.length] }
      cursor := some ⟨k, f.blocks.length⟩ }) rfl
    ⟨⟨_, Draft.getElem?_put hlt, rfl, rfl, by simp [Function.hasBody]⟩, .put _⟩
  split
  · rename_i hr
    have hok := hend.of_ok hr
    exact hok
  · rename_i hr
    have herror := hend.of_error hr
    exact herror

theorem verifyLowered_state (k : Nat) (b : Builder) : finalState (verifyLowered k b) = b := by
  unfold verifyLowered
  rw [bind_of_ok (get_run b)]
  rcases b.module.verifyFunction k with (_ | _ | _) | _ <;> rfl

/-- From the body of a definition to its end. -/
theorem filled_ends {k : Nat} {f : Function} (hf : b.module.functions[k]? = some f) {name : String}
    {params : List (Node × Ty)} {ret : Ty} {body : Node} :
    Ends ((lowerBody lower k name params ret body scope >>= fun _ => verifyLowered k >>= fun _ =>
      pure (Lowered.function k)) b) (fun _ _ => True)
      (fun _ b' => b.module.FillsBody k f.name f.signature b'.module) := by
  refine (lowerBody_fills hf).bind fun _ b₁ h => ?_
  have hstate := verifyLowered_state k b₁
  cases hr : verifyLowered k b₁ with
  | ok a b₂ =>
    rw [bind_of_ok hr]
    trivial
  | error e b₂ =>
    rw [hr, finalState_error] at hstate
    rw [bind_of_error hr, hstate]
    exact h

/-- The body that is filled in is the body of the function that was declared for it. -/
theorem Declares.gains {name : String} {signature : Signature} {k : Nat} {f : Function}
    (h : Declares name signature b k b') (hf : b'.module.functions[k]? = some f)
    (hbody : f.hasBody = false) {m : Module}
    (hfill : b'.module.FillsBody k f.name f.signature m) : b.module.GainsBody k name signature m := by
  obtain ⟨g, hg, hname, rfl⟩ := h.function
  cases hf.symm.trans hg
  rw [hname] at hfill
  cases h with
  | found index function same =>
    exact ⟨hfill, .inr ⟨index, f, hf, rfl, hbody⟩, hfill.rest.names _ _ index⟩
  | added absent =>
    refine ⟨⟨hfill.body, (Module.ChangesOnly.addFunction absent _).trans hfill.rest⟩,
      .inl ⟨absent, rfl⟩, hfill.rest.names _ _ ?_⟩
    rw [Module.functionIndex?_addFunction, if_pos rfl]

/-- A definition that fails outside of functions either changes nothing at all, or has given its
function a body: the function was absent, or declared with the same signature and without a body. In
that case the other functions and the variables are the same, functions declared meanwhile have no
body, and scopes and cursor are as before. The function carries the name of the definition, if the
tables lead from names to entries. Inside of a function a definition always fails, with an error if
there is such a function, and changes nothing. -/
theorem failed_definition {b : Builder} (hb : b.scopes.Numbered) {n : Node}
    (hn : n.kind = .functionDefinition) (scope : ScopeId) :
    (∀ fault b', b.cursor = none → lower n scope b = .error fault b' → b' = b ∨
      ∃ ret declarator params body k, States n ret declarator params body ∧
        b.module.GainsBody k declarator.name.text (declarator.signature ret) b'.module ∧
        (b.module.Indexed → b.module.nameAt k declarator.name.text = declarator.name.text) ∧
        (∀ id, b'.scopes.get? id = b.scopes.get? id) ∧ b'.cursor = none) ∧
    ∀ c, b.cursor = some c → ∃ fault, lower n scope b = .error fault b ∧
      ((b.module.functions[c.function]?).isSome → ∃ e, fault = .error e) := by
  have hlower : lower n scope = lowerDefinition lower n scope := by
    rw [lower_eq, lowerNode, hn]
  rw [hlower]
  rcases lowerDefinition_cases lower n scope b with ⟨e, h⟩ | ⟨fault, hnone, h⟩ |
    ⟨ret, declarator, params, body, k, b₁, f, hc, hstates, hd, hf, hbody, h⟩
  · refine ⟨fun fault b' _ hr => .inl ?_, fun c _ => ⟨_, h, fun _ => ⟨e, rfl⟩⟩⟩
    cases h.symm.trans hr
    rfl
  · refine ⟨fun fault b' _ hr => .inl ?_, fun c hc => ⟨fault, h, fun hsome => ?_⟩⟩
    · cases h.symm.trans hr
      rfl
    · simp [hnone c hc] at hsome
  · refine ⟨fun fault b' _ hr => .inr ?_, fun c' hc' => by cases hc.symm.trans hc'⟩
    have hfill := (filled_ends hf).of_error (h.symm.trans hr)
    have hkeep : ∀ s, KeepsContext s b b' := fun s =>
      (lowerDefinition_steady lower_steady b).of_error hr
    have hgains := hd.gains hf hbody hfill
    refine ⟨ret, declarator, params, body, k, hstates, hgains, hgains.nameAt_eq, fun id => ?_, ?_⟩
    · -- a definition binds nothing in any scope, so the scope may be taken to be another one
      exact ((hkeep (id + 1)).scopes hb).others id (Nat.ne_of_lt (Nat.lt_succ_self id))
    · have hcursor := (hkeep 0).cursor
      rwa [hc, Option.map_none, Option.map_eq_none_iff] at hcursor

/-- The function `f`, whose body declares `g` and uses a name that is not bound. -/
def halfDefinition : Node :=
  branchNode .functionDefinition [
    branchNode .declarationSpecifiers [leaf .typeSpecifier "int"],
    branchNode .functionDeclarator [leaf .identifier "f"],
    branchNode .compoundStatement [
      branchNode .declaration [
        branchNode .declarationSpecifiers [leaf .typeSpecifier "int"],
        branchNode .functionDeclarator [leaf .identifier "g"]],
      leaf .identifier "y"]]

/-- The body stays behind outside of functions; inside of one, nothing does. -/
theorem half_definition_fails :
    (∃ b' k, lower halfDefinition 1 nestedScopes =
        .error (.error ⟨none, .undefinedIdentifier "y"⟩) b' ∧ b' ≠ nestedScopes ∧
      nestedScopes.module.GainsBody k "f" { ret := .int, params := [] } b'.module ∧
      (∀ id, b'.scopes.get? id = nestedScopes.scopes.get? id) ∧ b'.cursor = none) ∧
    ∃ fault, lower halfDefinition 1 { nestedScopes with cursor := some ⟨0, 0⟩ } =
      .error fault { nestedScopes with cursor := some ⟨0, 0⟩ } := by
  have hb : nestedScopes.scopes.Numbered := (ScopeChain.numbered_empty.push none).push (some 0)
  have hr : lower halfDefinition 1 nestedScopes =
      .error (.error ⟨none, .undefinedIdentifier "y"⟩)
        (finalState (lower halfDefinition 1 nestedScopes)) := by decide +kernel
  constructor
  · rcases (failed_definition hb rfl 1).1 _ _ rfl hr with
      h | ⟨ret, declarator, params, body, k, hstates, hgains, -, hscopes, hcursor⟩
    · exact absurd h (by decide +kernel)
    · obtain ⟨d, hd, hdecl⟩ := hstates.declares
      obtain ⟨specifiers, hspec, hret⟩ := hstates.returns
      cases hd
      cases hspec
      cases hdecl
      cases hret
      exact ⟨_, k, hr, by decide +kernel, hgains, hscopes, hcursor⟩
  · obtain ⟨fault, h, -⟩ := (failed_definition (b := { nestedScopes with cursor := some ⟨0, 0⟩ })
      (n := halfDefinition) hb rfl 1).2 ⟨0, 0⟩ rfl
    exact ⟨fault, h⟩

end Lowering

end SlotIR
