import SlotIR.Proofs.BodySimulation
import SlotIR.Proofs.Execution
import SlotIR.Proofs.Provenance

/-!
# Runs mean what the tree says

The simulation of bodies is put together to calls and runs. A call copies its arguments to slots, runs
the body and comes back from one of its ends; so calls on the machine end like calls on the tree, by
induction on how deep they may still nest (`call_matches`). A run with enough steps then has the result
and the globals of the run of the program that the tree states (`generated_run_meaning`).
-/

namespace SlotIR

open Syntax (Node)
open RunM Machine Lowering

/-! ## Parameters -/

section bodies

variable {m : Module} {f : Function} {depth k : Nat} {pend : List Nat} {scope : ScopeId}
  {globals locals' : List (String × Value)}

/-- The arguments from a position on are in the cells of their parameters. -/
theorem spills_arrives {ps : List (Node × Ty)} : ∀ {d d' : Draft} {i : Nat}
    {locals : List (String × Value)} {σ : Source.State} {fr : Frame} {s : Machine},
    Spills scope i ps d d' → (∀ p ∈ ps, p.2.isArithmetic = true) →
    d.function.signature.params.drop i = ps.map (·.2) →
    Stands m f depth globals k pend scope d locals σ fr s → d'.Within m f →
    d'.Scoped scope locals' globals →
    ∃ fr', Arrives m f depth d fr s d' locals' { σ with
      locals := ((ps.map (·.1.text)).zip ((fr.args.drop i).map some)).reverse ++ σ.locals } fr' s := by
  induction ps with
  | nil =>
    intro d d' i locals σ fr s h _ _ hst hw hs'
    cases h
    cases locals_unique hst.visible hs' rfl
    exact ⟨fr, .refl hst.state hst.live⟩
  | cons p ps ih =>
    intro d d' i locals σ fr s h hps hparams hst hw hs'
    cases h with
    | @cons _ name ty _ _ _ c defines rest =>
      obtain ⟨hty, hps⟩ := List.forall_mem_cons.1 hps
      obtain ⟨hp, hrest⟩ := param_of_drop hparams
      have hc := spill_preserves hst.inv hst.visible hty hp defines
      rw [← hc.grows.function.signature] at hrest
      obtain ⟨_, hc'⟩ := spills_preserves rest hc.inv hc.visible hps hrest
      have hw₁ := hw.back hc'.grows
      -- the argument has the type of its parameter
      have hsig := (hw.back (hc.grows.trans hc'.grows)).function.signature
      have harg : (fr.args.map Scalar.ty)[i]? = some ty := by
        rw [hst.state.frame.args, hsig]
        exact hp
      rw [List.getElem?_map] at harg
      obtain ⟨x, hx, hxt⟩ := Option.map_eq_some_iff.1 harg
      have hop : fr.operand (.arg i) = .ok x := by rw [Frame.operand, hx]
      have hm : Match m f depth (d.addSlot (argSlot name ty i)) locals σ fr s :=
        hst.state.at_later (by simp [Draft.addSlot, Function.addSlot])
      have ha := Arrives.fill_slot name.text c (hst.inv.addSlot (s := argSlot name ty i) hty)
        hst.live hw₁.function hm (getElem?_addSlot d _) hst.visible.unbound hop hxt
      obtain ⟨fr', ha'⟩ := ih rest hps hrest ⟨hc.inv, hc.visible, ha.live, ha.state⟩ hw hs'
      have hall := ha.trans ha' hc.grows.function.nextValue
      refine ⟨fr', ?_⟩
      obtain ⟨hlt, e⟩ := List.getElem?_eq_some_iff.1 hx
      rw [List.drop_eq_getElem_cons hlt, e, List.map_cons, List.map_cons, List.zip_cons_cons,
        List.reverse_cons, List.append_assoc]
      exact ⟨hall.state, hall.live, ⟨hall.keeps.args, hall.keeps.temps⟩, hall.back⟩

/-! ## Bodies -/

theorem globalsIn_of_grows {file : File} (h : file.module.Grows m) :
    GlobalsIn m (globalBindings file.module.globals) := by
  intro name v hl
  obtain ⟨i, x, e, hx⟩ := mem_globalBindings (mem_of_lookup hl)
  cases e
  exact ⟨i, x, rfl, h.globals hx, rfl⟩

/-- At the start of a call all slots are empty. -/
theorem start_stands {file : File} {g : Function} {params : List (Node × Ty)} {args : List Scalar}
    {entries : List (String × Scalar)} {s : Machine} (ho : Opens file scope k g params)
    (hargs : args.map Scalar.ty = f.signature.params) (hd : s.depth = depth)
    (hs : Stored m entries s) :
    Stands m f depth (globalBindings file.module.globals) k [] file.scopes.opened
      ((file.start g params).enter scope) [] ⟨[], entries⟩ (.start f args) s := by
  refine ⟨ho.start_inv, ho.start_scoped, rfl, hd, hs, start_typed f hargs, .nil, fun i _ v hv => ?_⟩
  rw [Frame.start, List.getElem?_map] at hv
  obtain ⟨_, -, e⟩ := Option.map_eq_some_iff.1 hv
  cases e

variable {def_ : Source.Definition} {call : String → List Scalar → Source.EvalM (Option Scalar)}
  {args : List Scalar} {entries : List (String × Scalar)} {s : Machine}

/-- No call gets to code that is marked as unreachable. -/
theorem not_leads_unreachable (hv : m.Verified)
    (hdead : ∀ name, ¬ Allowed m (.error (.unreachable name))) (hf : f ∈ m.functions)
    (hentry : f.entry? = some 0) (hargs : args.map Scalar.ty = f.signature.params)
    (hs : s.Typed m) (s' : Machine) :
    ¬ Leads m f (.start f args) 0 0 s (.error (.error (.unreachable f.name)) s') := by
  intro hlead
  obtain ⟨enough, hrun⟩ := runFrom_leads hlead
  have hsound := runFrom_sound hv enough hf (List.mem_of_head? hentry) (.inl hentry)
    (start_typed f hargs) hs
  exact hdead _ (hsound.of_error (hrun enough (Nat.le_refl _))).1

/-- A finished body that is still open at its end is that of a function without a return value. -/
theorem closes_leads {d₂ d : Draft} {ret : Ty} {fr : Frame} (hi : d₂.Inv k [])
    (ho : d₂.function.closedAt d₂.block = false) (hc : Closes ret d₂ d)
    (hfin : d.function.Finished d.module)
    (hlost : ¬ d₂.LeadsTo m d.function fr s (.error (.error (.unreachable d.function.name)) s)) :
    ret = .void ∧ d₂.LeadsTo m d.function fr s (.ok none s) := by
  cases hc with
  | closed hclosed =>
    rw [ho] at hclosed
    cases hclosed
  | void _ hvoid => exact ⟨hvoid, Draft.leadsTo_close hi ho (.refl _) (.of_eq fun _ => rfl)⟩
  | dead => exact absurd (Draft.leadsTo_close hi ho (.refl _) (.of_eq fun _ => rfl)) hlost
  | live =>
    -- the last block of the layout is the one that is open
    obtain ⟨cur, hs, hclosed⟩ := hfin.shape
    obtain ⟨done, hl⟩ := hs.last
    obtain ⟨done', hl'⟩ := hi.shape.last
    have e : [cur] = [d₂.block] := (List.append_inj' (hl.symm.trans hl') rfl).2
    rw [List.singleton_inj.1 e, ho] at hclosed
    cases hclosed

/-- The call of a function that was built from a definition runs as its body is evaluated. Only a
function without a return value comes to the end of its body. -/
theorem compiled_runs (hc : Compiled m f def_) (hv : m.Verified)
    (hdead : ∀ name, ¬ Allowed m (.error (.unreachable name)))
    (hn : (m.globals.map (·.name)).Nodup) (hf : f ∈ m.functions) (hcalls : CallsMatch m depth call)
    (hargs : args.map Scalar.ty = f.signature.params) (hd : s.depth = depth)
    (hs : Stored m entries s) :
    Ends (Source.eval ⟨def_.name, def_.ret, call⟩ def_.body
        ⟨(def_.params.zip (args.map some)).reverse, entries⟩)
      (fun _ σ' => def_.ret = .void ∧
        ∃ r, Ended m depth (.returned none) σ' r ∧ Leads m f (.start f args) 0 0 s r)
      (fun e σ' => ∃ r, Ended m depth e σ' r ∧ Leads m f (.start f args) 0 0 s r) := by
  cases hc with
  | @intro h k scope file g params body d opens built same finished grows =>
    subst same
    have hleaves := opens.leaves built
    cases built with
    | @body d₁ d₂ _ r spills emits closes =>
      have hw : d.Within m d.function := ⟨.refl _, grows⟩
      have hw₂ : d₂.Within m d.function := hw.back (closes_extends closes).1
      obtain ⟨new, hc₁⟩ := opens.spills_continues spills
      have hvisible := hc₁.visible
      rw [List.append_nil] at hvisible
      obtain ⟨new', hc₂, -⟩ := (emits_preserves h).step emits hc₁.inv hvisible
      obtain ⟨fr₁, ha₁⟩ := spills_arrives spills opens.arithmetic opens.types
        (start_stands opens hargs hd hs) (hw₂.back hc₂.grows) hvisible
      rw [List.append_nil] at ha₁
      have hset : Setting m d.function depth (globalBindings file.module.globals)
          ⟨d.function.name, d.function.signature.ret, call⟩ :=
        ⟨hn, globalsIn_of_grows (hleaves.declares.grows.trans grows), rfl, rfl, hcalls⟩
      have hsim := (emits_simulates hset h body.height).step emits (Nat.le_refl _)
        ⟨hc₁.inv, hvisible, ha₁.live, ha₁.state⟩ hw₂ hc₂.visible
      have hback : ∀ {fr' : Frame} {s' : Machine} {σ' : Source.State} {r : CallResult},
          Arrives m d.function depth d₁ fr₁ s d₂ (new' ++ new) σ' fr' s' →
          d₂.LeadsTo m d.function fr' s' r → Leads m d.function (.start d.function args) 0 0 s r :=
        fun ha hr => ha₁.back _ (ha.back _ hr)
      obtain ⟨cur, hshape, -⟩ := finished.shape
      refine Ends.mono hsim ?_ ?_
      · rintro v σ' ⟨fr', s', ha, -⟩
        have hlost := not_leads_unreachable hv hdead hf hshape.entry hargs hs.typed s'
        obtain ⟨hvoid, hlead⟩ := closes_leads hc₂.inv ha.live closes finished
          (fun hr => hlost (hback ha hr))
        refine ⟨?_, _, .returned ha.state.globals ha.state.depth, hback ha hlead⟩
        rw [hleaves.signature]
        exact hvoid
      · rintro e σ' ⟨r, hend, hlead⟩
        exact ⟨r, hend, ha₁.back r hlead⟩

end bodies

/-! ## Calls -/

section calls

variable {m : Module} {p : Source.Program} {depth i : Nat} {g : Function}
  {def_ : Source.Definition} {args : List Scalar} {σ : Source.State} {s s' : Machine}

/-- A call that gets into a body comes back from where the body leads to. -/
theorem callWith_ok {rest : List Nat} {v : Option Scalar} (hg : m.functions[i]? = some g)
    (hl : g.layout = 0 :: rest) (hargs : args.length = g.signature.params.length)
    (hd : s.depth < maxCallDepth)
    (hlead : Leads m g (.start g args) 0 0 { s with depth := s.depth + 1 } (.ok v s')) :
    Eventually (fun steps => callWith (runFrom m steps) m i args s)
      (.ok v { s' with depth := s'.depth - 1 }) := by
  obtain ⟨enough, hrun⟩ := runFrom_leads hlead
  refine ⟨enough, fun steps hsteps => ?_⟩
  exact (callWith_enter hg hl hargs hd).trans (deeper_ok (hrun steps hsteps))

theorem callWith_error {rest : List Nat} {e : Fault EvalError} (hg : m.functions[i]? = some g)
    (hl : g.layout = 0 :: rest) (hargs : args.length = g.signature.params.length)
    (hd : s.depth < maxCallDepth)
    (hlead : Leads m g (.start g args) 0 0 { s with depth := s.depth + 1 } (.error e s')) :
    Eventually (fun steps => callWith (runFrom m steps) m i args s)
      (.error e { s' with depth := s'.depth - 1 }) := by
  obtain ⟨enough, hrun⟩ := runFrom_leads hlead
  refine ⟨enough, fun steps hsteps => ?_⟩
  exact (callWith_enter hg hl hargs hd).trans (deeper_error (hrun steps hsteps))

/-- A call that gets into a body. -/
theorem inFrame_ends (hv : m.Verified) (hdead : ∀ name, ¬ Allowed m (.error (.unreachable name)))
    (hn : (m.globals.map (·.name)).Nodup)
    {call : String → List Scalar → Source.EvalM (Option Scalar)}
    (hcalls : CallsMatch m (depth + 1) call) (hlt : depth < maxCallDepth)
    (hg : m.functions[i]? = some g) (hc : Compiled m g def_)
    (hargs : args.map Scalar.ty = g.signature.params) (hd : s.depth = depth)
    (hs : Stored m σ.globals s) :
    CallEnds m depth i g args σ s (Source.inFrame def_ args
      (Source.eval ⟨def_.name, def_.ret, call⟩ def_.body) σ) := by
  subst hd
  obtain ⟨rest, hl⟩ := hc.entry
  have hlen : args.length = g.signature.params.length := by
    rw [← hargs, List.length_map]
  have hbody := compiled_runs (s := { s with depth := s.depth + 1 }) hc hv hdead hn
    (List.mem_of_getElem? hg) hcalls hargs rfl ⟨hs.names, hs.values, hs.typed⟩
  -- what the function returned has the right type because the module is verified
  have hreturned : ∀ {v : Option Scalar} {σ' : Source.State} {s' : Machine},
      Leads m g (.start g args) 0 0 { s with depth := s.depth + 1 } (.ok v s') →
      Stored m σ'.globals s' → s'.depth = s.depth + 1 →
      CallEnds m s.depth i g args σ s (.ok v { σ with globals := σ'.globals }) := by
    intro v σ' s' hlead hstored hdepth
    have hrun := callWith_ok hg hl hlen hlt hlead
    obtain ⟨enough, heq⟩ := hrun
    have hsound := callWith_runFrom_sound hv enough hg (fits_of_map_ty hargs) hs.typed
    refine ⟨rfl, (hsound.of_ok (heq enough (Nat.le_refl _))).1, _, ⟨enough, heq⟩, ?_, ?_⟩
    · exact ⟨hstored.names, hstored.values, hstored.typed⟩
    · show s'.depth - 1 = s.depth
      omega
  unfold Source.inFrame
  cases he : Source.eval ⟨def_.name, def_.ret, call⟩ def_.body
      ⟨(def_.params.zip (args.map some)).reverse, σ.globals⟩ with
  | ok v σ' =>
    obtain ⟨hvoid, r, hend, hlead⟩ := hbody.of_ok he
    cases hend with
    | returned globals level =>
      simp only [hvoid, if_true]
      exact hreturned hlead globals level
  | error e σ' =>
    obtain ⟨r, hend, hlead⟩ := hbody.of_error he
    cases hend with
    | returned globals level => exact hreturned hlead globals level
    | @failed _ err _ s' same globals level =>
      have hrun := callWith_error hg hl hlen hlt hlead
      refine ⟨_, _, .failed same ?_ ?_, hrun⟩
      · exact ⟨globals.names, globals.values, globals.typed⟩
      · show s'.depth - 1 = s.depth
        omega

/-- Whether a function has a body is found out before it is entered. -/
theorem callWith_matches (hr : Reflects p m)
    {enter : Source.Definition → List Scalar → Source.EvalM (Option Scalar)}
    (henter : ∀ {i : Nat} {g : Function} {def_ : Source.Definition} {args : List Scalar}
      {σ : Source.State} {s : Machine}, m.functions[i]? = some g → Compiled m g def_ →
      args.map Scalar.ty = g.signature.params → s.depth = depth → Stored m σ.globals s →
      CallEnds m depth i g args σ s (enter def_ args σ)) :
    CallsMatch m depth (Source.callWith enter p) := by
  intro i g args σ s hg hargs hd hs
  have hm := List.mem_of_getElem? hg
  unfold Source.callWith
  cases hdef : p.definition? g.name with
  | none =>
    have hknown : g.name ∈ p.functions := (hr.functions g.name).1 (List.mem_map.2 ⟨g, hm, rfl⟩)
    simp only [if_pos hknown]
    exact ⟨_, s, .failed rfl hs hd, .of_eq fun _ => callWith_noBody hg (hr.bare g hm hdef)⟩
  | some def_ =>
    have hc := hr.compiled g hm def_ hdef
    have hlen : args.length = def_.params.length := by
      rw [hc.header.2, ← hargs, List.length_map]
    simp only [hlen, ne_eq, not_true_eq_false, if_false]
    exact henter hg hc hargs hd hs

/-- Calls end alike on the tree and on the machine, by induction on how deep they may still nest. -/
theorem call_matches (hr : Reflects p m) (hv : m.Verified)
    (hdead : ∀ name, ¬ Allowed m (.error (.unreachable name)))
    (hn : (m.globals.map (·.name)).Nodup) (left : Nat) :
    ∀ depth : Nat, left = maxCallDepth - depth → CallsMatch m depth (Source.call p left) := by
  induction left with
  | zero =>
    intro depth hleft
    refine callWith_matches hr fun {i g def_ args σ s} hg hc hargs hd hs => ?_
    obtain ⟨rest, hl⟩ := hc.entry
    have hlen : args.length = g.signature.params.length := by rw [← hargs, List.length_map]
    exact ⟨_, s, .failed rfl hs hd, .of_eq fun _ => callWith_callDepth hg hl hlen (by omega)⟩
  | succ left ih =>
    intro depth hleft
    refine callWith_matches hr fun {i g def_ args σ s} hg hc hargs hd hs => ?_
    exact inFrame_ends hv hdead hn (ih (depth + 1) (by omega)) (by omega) hg hc hargs hd hs

end calls

/-! ## Runs -/

/-- What can be seen of the end of a run: what it returned or why it failed, and the globals. -/
def observe : CallResult → Option (Source.Outcome × List Scalar)
  | .ok v s => some (.returned v, s.globals)
  | .error (.error e) s => e.failure?.map fun failure => (.failed failure, s.globals)
  | .error _ _ => none

section runs

variable {m : Module} {p : Source.Program} {s : Machine} {name : String} {args : List Scalar}

/-- A run that has enough steps has the result that it has with any more. -/
theorem run_of_eventually (hf : ∀ f ∈ m.functions, f.Forward) {steps : Nat}
    (hsteps : m.acyclicSteps ≤ steps) {r : CallResult}
    (h : Eventually (fun steps => m.run steps name args s) r) : m.run steps name args s = r := by
  obtain ⟨enough, h⟩ := h
  rw [← h (max steps enough) (Nat.le_max_right ..)]
  rcases run_extended m (Nat.le_max_left steps enough) name args s with e | ⟨s', e⟩
  · exact e
  · exact absurd rfl ((run_settles hf steps name args s).of_error e |>.2 hsteps)

theorem start_stored (hr : Reflects p m) (hs : s.Typed m) :
    Stored m (p.globals.zip s.globals) s ∧ (p.globals.zip s.globals).map (·.2) = s.globals := by
  have hlen : p.globals.length = s.globals.length := by
    rw [hs.length, ← hr.globals, List.length_map]
  have hvalues : (p.globals.zip s.globals).map (·.2) = s.globals :=
    List.map_snd_zip (Nat.le_of_eq hlen.symm)
  refine ⟨⟨?_, hvalues, hs⟩, hvalues⟩
  rw [hr.globals]
  exact List.map_fst_zip (Nat.le_of_eq hlen)

theorem call_eq_callWith (p : Source.Program) (left : Nat) :
    ∃ enter, Source.call p left = Source.callWith enter p := by
  cases left with
  | zero => exact ⟨_, rfl⟩
  | succ left => exact ⟨_, rfl⟩

variable {i : Nat} {g : Function}

/-- A call with a wrong number of arguments fails for that, or because there is no body. -/
theorem miscount_means (hr : Reflects p m) (hs : s.Typed m) (hg : m.functions[i]? = some g)
    (hlen : args.length ≠ g.signature.params.length) :
    ∃ r result, Eventually (fun steps => callWith (runFrom m steps) m i args s) r ∧
      observe r = some result ∧
      Source.run p (maxCallDepth - s.depth) g.name args s.globals = some result := by
  obtain ⟨-, hvalues⟩ := start_stored hr hs
  obtain ⟨enter, hcall⟩ := call_eq_callWith p (maxCallDepth - s.depth)
  have hm := List.mem_of_getElem? hg
  unfold Source.run
  rw [hcall, Source.callWith]
  cases hdef : p.definition? g.name with
  | none =>
    have hknown : g.name ∈ p.functions := (hr.functions g.name).1 (List.mem_map.2 ⟨g, hm, rfl⟩)
    refine ⟨_, _, .of_eq fun _ => callWith_noBody hg (hr.bare g hm hdef), rfl, ?_⟩
    simp only [if_pos hknown, throw_run, hvalues]
  | some def_ =>
    have hc := hr.compiled g hm def_ hdef
    obtain ⟨rest, hl⟩ := hc.entry
    refine ⟨_, _, .of_eq fun _ => callWith_argumentCount hg hl hlen, rfl, ?_⟩
    rw [← hc.header.2] at hlen ⊢
    simp only [ne_eq, hlen, not_false_eq_true, if_true, throw_run, hvalues]

theorem unknown_means (hr : Reflects p m) (hm : m.Indexed) (hs : s.Typed m)
    (hi : m.functionIndex? name = none) :
    Source.run p (maxCallDepth - s.depth) name args s.globals =
      some (.failed (.unknownFunction name), s.globals) := by
  obtain ⟨-, hvalues⟩ := start_stored hr hs
  obtain ⟨enter, hcall⟩ := call_eq_callWith p (maxCallDepth - s.depth)
  have habsent : name ∉ m.functionNames := (Module.functionIndex?_none hm).1 hi
  have hunknown : name ∉ p.functions := fun hmem => habsent ((hr.functions name).2 hmem)
  unfold Source.run
  rw [hcall, Source.callWith, hr.undefined habsent]
  simp only [if_neg hunknown, throw_run, hvalues]

/-- A run whose arguments fit ends like the run of the program. -/
theorem run_means (hr : Reflects p m) (hm : m.Indexed) (hv : m.Verified)
    (hdead : ∀ name, ¬ Allowed m (.error (.unreachable name)))
    (hn : (m.globals.map (·.name)).Nodup) (hs : s.Typed m) (hfit : m.RunFits name args) :
    ∃ r result, Eventually (fun steps => m.run steps name args s) r ∧ observe r = some result ∧
      Source.run p (maxCallDepth - s.depth) name args s.globals = some result := by
  obtain ⟨hstored, -⟩ := start_stored hr hs
  cases hi : m.functionIndex? name with
  | none =>
    have hrun : ∀ steps, m.run steps name args s = .error (.error (.unknownFunction name)) s := by
      intro steps
      rw [Module.run, hi]
      rfl
    exact ⟨_, _, .of_eq hrun, rfl, unknown_means hr hm hs hi⟩
  | some i =>
    obtain ⟨g, hg, rfl⟩ := Module.functionIndex?_some hm hi
    have hrun : ∀ steps, m.run steps g.name args s = callWith (runFrom m steps) m i args s := by
      intro steps
      rw [Module.run, hi]
      rfl
    simp only [hrun]
    by_cases hlen : args.length = g.signature.params.length
    · obtain ⟨g', hg', hargs'⟩ := hfit i hi
      cases hg.symm.trans hg'
      have hargs := hargs'.map_ty hlen
      have hends : CallEnds m s.depth i g args ⟨[], p.globals.zip s.globals⟩ s
          (Source.call p (maxCallDepth - s.depth) g.name args ⟨[], p.globals.zip s.globals⟩) :=
        call_matches hr hv hdead hn _ s.depth rfl hg hargs rfl hstored
      unfold Source.run
      cases hc : Source.call p (maxCallDepth - s.depth) g.name args
          ⟨[], p.globals.zip s.globals⟩ with
      | ok v σ' =>
        obtain ⟨-, -, s', hev, hst', -⟩ := Ends.of_ok hends hc
        refine ⟨_, _, hev, rfl, ?_⟩
        simp only [hst'.values]
      | error e σ' =>
        obtain ⟨fault, s', hend, hev⟩ := Ends.of_error hends hc
        cases hend with
        | @failed failure _ _ _ same globals level =>
          refine ⟨_, (.failed failure, s'.globals), hev, ?_, ?_⟩
          · rw [observe, same]
            rfl
          · simp only [globals.values]
    · exact miscount_means hr hs hg hlen

end runs

theorem initial_reflects (name : String) : Reflects (.ofItems []) (File.initial name).module :=
  ⟨rfl, fun _ => Iff.rfl, nofun, nofun, nofun⟩

/-- Lowering preserves meaning. Take any state whose globals have values of their types, such as the
states that earlier runs lead to. A run of a generated module from there, with arguments that have the
types of the parameters, returns the same value or fails for the same reason as the evaluation of the
tree, and the globals have the same values afterwards. -/
theorem generated_run_meaning {name : String} {root : Node} {m : Module}
    (hm : generate name root = .ok m) :
    (∀ s, Reached m s → s.Typed m ∧ s.depth = 0) ∧
    ∀ s : Machine, s.Typed m → ∀ steps, m.acyclicSteps ≤ steps →
      ∀ function args, m.RunFits function args →
        ∃ result, Source.run (.ofTree root) (maxCallDepth - s.depth) function args s.globals =
            some result ∧
          observe (m.run steps function args s) = some result := by
  obtain ⟨file, rfl, hbuilt, hi⟩ := generate_ok hm
  have hr := buildsAll_reflects hbuilt (initial_inv name) (initial_reflects name)
  rw [List.nil_append] at hr
  have hinit : ∀ g ∈ file.module.globals, g.init.ty = g.ty := fun g hg => (hi.sane.globals g hg).2
  have hnames := (List.nodup_append.1 hi.sane.names).1
  refine ⟨fun s hs => ⟨reached_typed hi.verified hinit hs, reached_depth hi.forward hs⟩, ?_⟩
  intro s hs steps hsteps function args hfit
  obtain ⟨r, result, hev, hobs, hsource⟩ :=
    run_means hr hi.sane.indexed hi.verified hi.not_unreachable hnames hs hfit
  refine ⟨result, hsource, ?_⟩
  rw [run_of_eventually hi.forward hsteps hev, hobs]

/-- A function that calls another one and itself. The variable in its first arm hides the parameter,
and what it is initialized with is read before that. -/
def cascadeTree : Node :=
  branchNode .translationUnit [
    branchNode .declaration [
      branchNode .declarationSpecifiers [leaf .typeSpecifier "int"],
      branchNode .initDeclarator [leaf .identifier "total", leaf .int "1"]],
    branchNode .functionDefinition [
      branchNode .declarationSpecifiers [leaf .typeSpecifier "void"],
      branchNode .functionDeclarator [leaf .identifier "add",
        branchNode .parameterList [branchNode .parameterDeclaration [
          branchNode .declarationSpecifiers [leaf .typeSpecifier "int"], leaf .identifier "n"]]],
      branchNode .compoundStatement [
        branchNode .assignmentExpression [leaf .identifier "total", leaf .identifier "n"]]],
    branchNode .functionDefinition [
      branchNode .declarationSpecifiers [leaf .typeSpecifier "int"],
      branchNode .functionDeclarator [leaf .identifier "down",
        branchNode .parameterList [branchNode .parameterDeclaration [
          branchNode .declarationSpecifiers [leaf .typeSpecifier "int"], leaf .identifier "n"]]],
      branchNode .compoundStatement [
        branchNode .ifElseStatement [leaf .identifier "n",
          branchNode .compoundStatement [
            branchNode .declaration [
              branchNode .declarationSpecifiers [leaf .typeSpecifier "int"],
              branchNode .initDeclarator [leaf .identifier "n", leaf .identifier "n"]],
            branchNode .functionCall [leaf .identifier "add",
              branchNode .argumentExpressionList [leaf .identifier "n"]],
            branchNode .assignmentExpression [leaf .identifier "n", leaf .int "0"],
            branchNode .functionCall [leaf .identifier "down",
              branchNode .argumentExpressionList [leaf .identifier "n"]]],
          branchNode .compoundStatement [branchNode .returnExpr [leaf .identifier "total"]]],
        branchNode .returnExpr [leaf .identifier "n"]]]]

@[irreducible] def cascade : Module :=
  match generate "cascade" cascadeTree with
  | .ok m => m
  | .error failure => failure.module

/-- The parameter of the outer call still has its value at the end. -/
theorem cascade_run_meaning :
    Source.run (.ofTree cascadeTree) maxCallDepth "down" [.int 7] [.int 5] =
        some (.returned (some (.int 7)), [.int 7]) ∧
      observe (cascade.run cascade.acyclicSteps "down" [.int 7] { globals := [.int 5] }) =
        some (.returned (some (.int 7)), [.int 7]) := by
  have hm : generate "cascade" cascadeTree = .ok cascade := by decide +kernel
  have hs : ({ globals := [.int 5] } : Machine).Typed cascade := by
    unfold Machine.Typed
    decide +kernel
  have hfit : cascade.RunFits "down" [.int 7] := by decide +kernel
  have hsource : Source.run (.ofTree cascadeTree) maxCallDepth "down" [.int 7] [.int 5] =
      some (.returned (some (.int 7)), [.int 7]) := by decide +kernel
  obtain ⟨result, hresult, hrun⟩ := (generated_run_meaning hm).2 _ hs _ (Nat.le_refl _) _ _ hfit
  cases hsource.symm.trans hresult
  exact ⟨hsource, hrun⟩

end SlotIR
