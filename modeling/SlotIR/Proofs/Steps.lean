import SlotIR.Proofs.Running
import SlotIR.Proofs.Body

/-!
# Numbers of steps

The number of steps only bounds a run. A run that ends within some steps ends the same way within
more (`runFrom_extended`), and where control only goes forward in every body, `acyclicSteps` are enough
for every call (`callWith_settles`): a body is left after as many blocks as are laid out behind the
current one, and each call inside of it may nest one level less.
-/

namespace SlotIR

open RunM Machine

/-! ## More steps -/

/-- Both computations end the same way, unless the first runs out of steps. -/
def Extended {α : Type} (x y : RunM α) : Prop :=
  ∀ s, x s = y s ∨ ∃ s', x s = .error .exhausted s'

namespace Extended

variable {α β : Type}

theorem refl (x : RunM α) : Extended x x := fun _ => .inl rfl

theorem trans {x y z : RunM α} (h : Extended x y) (h' : Extended y z) : Extended x z := by
  intro s
  rcases h s with e | hx
  · rw [e]
    exact h' s
  · exact .inr hx

theorem bind {x y : RunM α} {f g : α → RunM β} (h : Extended x y) (hf : ∀ a, Extended (f a) (g a)) :
    Extended (x >>= f) (y >>= g) := by
  intro s
  rcases h s with e | ⟨s', hx⟩
  · cases hy : y s with
    | ok a s' =>
      rw [bind_of_ok (e.trans hy), bind_of_ok hy]
      exact hf a s'
    | error err s' => exact .inl (by rw [bind_of_error (e.trans hy), bind_of_error hy])
  · exact .inr ⟨s', bind_of_error hx⟩

theorem deeper {x y : RunM α} (h : Extended x y) : Extended (RunM.deeper x) (RunM.deeper y) := by
  intro s
  unfold RunM.deeper
  rcases h { s with depth := s.depth + 1 } with e | ⟨s', hx⟩
  · exact .inl (by rw [e])
  · exact .inr ⟨_, by rw [hx]⟩

end Extended

section extended

variable {m : Module} {f : Function}

theorem callWith_extended {enter enter' : Function → Frame → Nat → RunM (Option Scalar)}
    (h : ∀ f fr i, Extended (enter f fr i) (enter' f fr i)) (index : Nat) (args : List Scalar) :
    Extended (callWith enter m index args) (callWith enter' m index args) := by
  unfold callWith
  cases m.functions[index]? with
  | none => exact .refl _
  | some f =>
    dsimp only
    cases f.layout with
    | nil => exact .refl _
    | cons entry rest =>
      dsimp only
      split
      · exact .refl _
      · refine Extended.bind (.refl _) fun s => ?_
        split
        · exact .refl _
        · exact .deeper (h f (.start f args) entry)

variable {call call' : Nat → List Scalar → RunM (Option Scalar)}

theorem runInst_extended (h : ∀ i args, Extended (call i args) (call' i args)) (fr : Frame)
    (i : Inst) : Extended (runInst call f fr i) (runInst call' f fr i) := by
  unfold runInst
  cases i.action with
  | call callee args =>
    exact Extended.bind (.refl _) fun vs => Extended.bind (h callee vs) fun _ => .refl _
  | _ => exact .refl _

theorem runInsts_extended (h : ∀ i args, Extended (call i args) (call' i args)) (is : List Inst) :
    ∀ fr : Frame, Extended (runInsts call f is fr) (runInsts call' f is fr) := by
  induction is with
  | nil =>
    intro fr
    exact .refl _
  | cons i is ih =>
    intro fr
    exact Extended.bind (runInst_extended h fr i) fun fr' => ih fr'

/-- One more step changes nothing but runs that were cut off. -/
theorem runFrom_extended_succ (m : Module) : ∀ (steps : Nat) (f : Function) (fr : Frame) (i : Nat),
    Extended (runFrom m steps f fr i) (runFrom m (steps + 1) f fr i) := by
  intro steps
  induction steps with
  | zero =>
    intro f fr i s
    exact .inr ⟨s, rfl⟩
  | succ steps ih =>
    intro f fr i
    cases hb : f.blocks[i]? with
    | none =>
      rw [runFrom, runFrom, hb]
      exact .refl _
    | some b =>
      rw [runFrom_succ m steps f fr hb, runFrom_succ m (steps + 1) f fr hb]
      refine Extended.bind (runInsts_extended (callWith_extended ih) b.insts fr) fun fr' => ?_
      rcases b.terminator with _ | (target | ⟨cond, onTrue, onFalse⟩ | ⟨_ | o⟩ | _)
      · exact .refl _
      · exact ih f fr' target
      · refine Extended.bind (.refl _) fun v => ?_
        rcases v with (_ | _) | c | n | x
        · exact ih f fr' onFalse
        · exact ih f fr' onTrue
        · exact .refl _
        · exact .refl _
        · exact .refl _
      · exact .refl _
      · exact .refl _
      · exact .refl _

theorem runFrom_extended (m : Module) {steps steps' : Nat} (h : steps ≤ steps') (f : Function)
    (fr : Frame) (i : Nat) : Extended (runFrom m steps f fr i) (runFrom m steps' f fr i) := by
  induction h with
  | refl => exact .refl _
  | step _ ih => exact ih.trans (runFrom_extended_succ m _ f fr i)

theorem run_extended (m : Module) {steps steps' : Nat} (h : steps ≤ steps') (name : String)
    (args : List Scalar) : Extended (m.run steps name args) (m.run steps' name args) := by
  unfold Module.run
  cases m.functionIndex? name with
  | none => exact .refl _
  | some index => exact callWith_extended (runFrom_extended m h) index args

end extended

/-! ## Enough steps -/

/-- Control only goes to blocks of the body that are laid out later. -/
structure Function.Forward (f : Function) : Prop where
  targets : ∀ i ∈ f.layout, ∀ b, f.blocks[i]? = some b → ∀ j, goesTo b j = true →
    j ∈ f.layout ∧ f.layout.idxOf i < f.layout.idxOf j
  length : f.layout.length ≤ f.blocks.length

/-- The number of blocks of the function that has most. -/
def Module.longest (m : Module) : Nat := (m.functions.map (·.blocks.length)).foldl max 0

theorem le_foldl_max {l : List Nat} : ∀ (n : Nat), n ≤ l.foldl max n ∧ ∀ x ∈ l, x ≤ l.foldl max n := by
  induction l with
  | nil =>
    intro n
    exact ⟨Nat.le_refl n, nofun⟩
  | cons y l ih =>
    intro n
    obtain ⟨hn, hl⟩ := ih (max n y)
    refine ⟨Nat.le_trans (Nat.le_max_left ..) hn, List.forall_mem_cons.2 ⟨?_, hl⟩⟩
    exact Nat.le_trans (Nat.le_max_right ..) hn

theorem blocks_le_longest {m : Module} {f : Function} (hf : f ∈ m.functions) :
    f.blocks.length ≤ m.longest :=
  (le_foldl_max 0).2 _ (List.mem_map_of_mem hf)

/-- A computation comes back to the depth of its start, and does not run out of steps if there are
enough. -/
def Settles {α : Type} (enough : Prop) (depth : Nat) (r : EStateM.Result (Fault EvalError) Machine α) :
    Prop :=
  Ends r (fun _ s' => s'.depth = depth) (fun e s' => s'.depth = depth ∧ (enough → e ≠ .exhausted))

section settles

variable {α β : Type} {enough : Prop} {depth : Nat} {s : Machine} {f : Function} {fr : Frame}

theorem Settles.bind {x : RunM α} {g : α → RunM β} (hx : Settles enough depth (x s))
    (hg : ∀ a s', s'.depth = depth → Settles enough depth (g a s')) :
    Settles enough depth ((x >>= g) s) :=
  Ends.bind hx hg

theorem Settles.weaken {enough' : Prop} {r : EStateM.Result (Fault EvalError) Machine α}
    (h : Settles enough depth r) (he : enough' → enough) : Settles enough' depth r :=
  h.mono (fun _ _ h => h) fun _ _ h => ⟨h.1, fun h' => h.2 (he h')⟩

theorem error_settles {e : Fault EvalError} (he : e ≠ .exhausted) (hs : s.depth = depth) :
    Settles enough depth (.error e s : EStateM.Result _ _ α) :=
  ⟨hs, fun _ => he⟩

theorem fail_settles (e : EvalError) (hs : s.depth = depth) :
    Settles enough depth (fail e s : EStateM.Result _ _ α) :=
  error_settles (by simp) hs

theorem orTrap_settles (x : Except Trap α) (hs : s.depth = depth) :
    Settles enough depth (orTrap f x s) := by
  cases x with
  | ok a => exact hs
  | error t => exact fail_settles _ hs

theorem load_settles (address : Operand) (hs : s.depth = depth) :
    Settles enough depth (load f fr address s) := by
  unfold load
  cases address with
  | slot i =>
    dsimp only
    rcases fr.slots[i]? with _ | _ | v
    · exact fail_settles _ hs
    · exact fail_settles _ hs
    · exact hs
  | global i =>
    dsimp only
    rw [bind_of_ok (get_run s)]
    cases s.globals[i]? with
    | some v => exact hs
    | none => exact fail_settles _ hs
  | _ => exact fail_settles _ hs

theorem store_settles (address : Operand) (v : Scalar) (hs : s.depth = depth) :
    Settles enough depth (store f fr address v s) := by
  unfold store
  cases address with
  | slot i =>
    dsimp only
    split
    · exact hs
    · exact fail_settles _ hs
  | global i =>
    dsimp only
    rw [bind_of_ok (get_run s)]
    split
    · exact hs
    · exact fail_settles _ hs
  | _ => exact fail_settles _ hs

variable {call : Nat → List Scalar → RunM (Option Scalar)}

theorem runInst_settles (hcall : ∀ i args s, s.depth = depth → Settles enough depth (call i args s))
    (i : Inst) (hs : s.depth = depth) : Settles enough depth (runInst call f fr i s) := by
  unfold runInst
  cases i.action with
  | load address => exact (load_settles address hs).bind fun _ _ h => h
  | store address value => exact (orTrap_settles _ hs).bind fun v _ h => store_settles address v h
  | cast op value =>
    exact (orTrap_settles _ hs).bind fun _ _ h => (orTrap_settles _ h).bind fun _ _ h => h
  | compare lhs rhs =>
    refine (orTrap_settles _ hs).bind fun _ _ h => (orTrap_settles _ h).bind fun _ _ h => ?_
    exact (orTrap_settles _ h).bind fun _ _ h => h
  | call callee args =>
    exact (orTrap_settles _ hs).bind fun vs s' h => (hcall callee vs s' h).bind fun _ _ h => h

theorem runInsts_settles (hcall : ∀ i args s, s.depth = depth → Settles enough depth (call i args s))
    (is : List Inst) :
    ∀ {fr : Frame} {s : Machine}, s.depth = depth → Settles enough depth (runInsts call f is fr s) := by
  induction is with
  | nil =>
    intro fr s hs
    exact hs
  | cons i is ih =>
    intro fr s hs
    exact (runInst_settles hcall i hs).bind fun _ _ h => ih h

/-- Calls one level deeper need the steps of the longest body less. -/
theorem callWith_settles {m : Module} {enter : Function → Frame → Nat → RunM (Option Scalar)}
    (henter : ∀ g ∈ m.functions, ∀ entry, g.entry? = some entry → ∀ fr s, s.depth = depth + 1 →
      depth < maxCallDepth → Settles enough (depth + 1) (enter g fr entry s))
    (index : Nat) (args : List Scalar) (hs : s.depth = depth) :
    Settles enough depth (callWith enter m index args s) := by
  cases hg : m.functions[index]? with
  | none =>
    rw [callWith, hg]
    exact error_settles (by simp) hs
  | some g =>
  cases hl : g.layout with
  | nil =>
    rw [callWith_noBody hg hl]
    exact error_settles (by simp) hs
  | cons entry rest =>
  by_cases ha : args.length = g.signature.params.length
  · by_cases hd : s.depth < maxCallDepth
    · have he : g.entry? = some entry := by rw [ Function.entry?, hl]; rfl
      have h := henter g (List.mem_of_getElem? hg) entry he (.start g args)
        { s with depth := s.depth + 1 } (by rw [hs]) (by omega)
      rw [callWith_enter hg hl ha hd]
      unfold deeper
      cases hr : enter g (.start g args) entry { s with depth := s.depth + 1 } with
      | ok v s' =>
        have h' := h.of_ok hr
        show s'.depth - 1 = depth
        omega
      | error e s' =>
        obtain ⟨h', hne⟩ := h.of_error hr
        refine ⟨?_, hne⟩
        show s'.depth - 1 = depth
        omega
    · rw [callWith_callDepth hg hl ha (Nat.not_lt.1 hd)]
      exact error_settles (by simp) hs
  · rw [callWith_argumentCount hg hl ha]
    exact error_settles (by simp) hs

end settles

section forward

variable {m : Module}

/-- One call level less makes room for the longest body. -/
theorem steps_of_call {depth steps : Nat} {g : Function} (hm : ∀ f ∈ m.functions, f.Forward)
    (hg : g ∈ m.functions) (hd : depth < maxCallDepth) {entry : Nat}
    (h : (maxCallDepth - depth) * m.longest ≤ steps) :
    (maxCallDepth - (depth + 1)) * m.longest + (g.layout.length - g.layout.idxOf entry) ≤ steps := by
  have hlen : g.layout.length ≤ m.longest :=
    Nat.le_trans (hm g hg).length (blocks_le_longest hg)
  have hsucc : maxCallDepth - depth = maxCallDepth - (depth + 1) + 1 := by omega
  rw [hsucc, Nat.succ_mul] at h
  omega

theorem runFrom_settles (hm : ∀ f ∈ m.functions, f.Forward) :
    ∀ (steps : Nat) {f : Function} {fr : Frame} {i depth : Nat} {s : Machine}, f ∈ m.functions →
      i ∈ f.layout → s.depth = depth →
      Settles ((maxCallDepth - depth) * m.longest + (f.layout.length - f.layout.idxOf i) ≤ steps)
        depth (runFrom m steps f fr i s) := by
  intro steps
  induction steps with
  | zero =>
    intro f fr i depth s _ hi hs
    have hlt := List.idxOf_lt_length_of_mem hi
    exact ⟨hs, fun h => absurd h (by omega)⟩
  | succ steps ih =>
    intro f fr i depth s hf hi hs
    have hlt := List.idxOf_lt_length_of_mem hi
    cases hb : f.blocks[i]? with
    | none =>
      rw [runFrom, hb]
      exact error_settles (by simp) hs
    | some b =>
    rw [runFrom_succ m steps f fr hb]
    have hcall : ∀ (index : Nat) (args : List Scalar) (s : Machine), s.depth = depth →
        Settles ((maxCallDepth - depth) * m.longest + (f.layout.length - f.layout.idxOf i) ≤
          steps + 1) depth (callWith (runFrom m steps) m index args s) := by
      intro index args s hs
      refine callWith_settles (fun g hg entry he fr s hs hd => ?_) index args hs
      refine (ih hg (List.mem_of_head? he) hs).weaken fun h => ?_
      exact steps_of_call hm hg hd (by omega)
    refine (runInsts_settles hcall b.insts hs).bind fun fr' s' hs' => ?_
    have hnext : ∀ (j : Nat) (s' : Machine), Function.goesTo b j = true → s'.depth = depth →
        Settles ((maxCallDepth - depth) * m.longest + (f.layout.length - f.layout.idxOf i) ≤
          steps + 1) depth (runFrom m steps f fr' j s') := by
      intro j s' hj hs'
      obtain ⟨hjl, hij⟩ := (hm f hf).targets i hi b hb j hj
      exact (ih hf hjl hs').weaken fun h => by omega
    cases ht : b.terminator with
    | none => exact fail_settles _ hs'
    | some t =>
    have hsucc : ∀ j ∈ t.successors, Function.goesTo b j = true := fun j hj =>
      (Function.goesTo_iff ht).2 hj
    cases t with
    | jump target => exact hnext target s' (hsucc target (by simp [Terminator.successors])) hs'
    | branch cond onTrue onFalse =>
      refine (orTrap_settles _ hs').bind fun v s'' hs'' => ?_
      rcases v with (_ | _) | c | n | x
      · exact hnext onFalse s'' (hsucc onFalse (by simp [Terminator.successors])) hs''
      · exact hnext onTrue s'' (hsucc onTrue (by simp [Terminator.successors])) hs''
      · exact fail_settles _ hs''
      · exact fail_settles _ hs''
      · exact fail_settles _ hs''
    | ret value =>
      cases value with
      | none => exact hs'
      | some o => exact (orTrap_settles _ hs').bind fun _ _ h => h
    | unreachable => exact fail_settles _ hs'

/-- With `acyclicSteps` no run is cut off, and every run leaves the depth of calls as it was. -/
theorem run_settles (hm : ∀ f ∈ m.functions, f.Forward) (steps : Nat) (name : String)
    (args : List Scalar) (s : Machine) :
    Settles (m.acyclicSteps ≤ steps) s.depth (m.run steps name args s) := by
  unfold Module.run
  cases m.functionIndex? name with
  | none => exact fail_settles _ rfl
  | some index =>
    refine callWith_settles (fun g hg entry he fr s' hs' hd => ?_) index args rfl
    refine (runFrom_settles hm steps hg (List.mem_of_head? he) hs').weaken fun h => ?_
    refine steps_of_call hm hg hd ?_
    have hmul : (maxCallDepth - s.depth) * m.longest ≤ maxCallDepth * m.longest :=
      Nat.mul_le_mul_right _ (Nat.sub_le ..)
    have hsteps : maxCallDepth * m.longest + 1 ≤ steps := h
    omega

end forward

end SlotIR
