import Mathlib.Logic.Relation
import SlotIR.Proofs.ScopeHistory

/-!
# Resolution of names

Scopes may be opened inside of any scope that was ever open, closed in any order, and given names as
long as they are open. A parent was opened before its children, whatever happened since
(`ScopeChain.Ordered`), so a walk outward comes to older and older scopes and ends. It ends at the
first scope that binds the name (`ScopeChain.Resolves`), unless it runs into the root or into a scope
that was closed. `scope_resolution` says this of every history of operations, and what a scope binds
a name to: the value that the name was given first. The numbers of the scopes are those of a counter;
`Supply` says what histories need of them.
-/

namespace SlotIR

/-! ## Walks

A walk outward needs nothing but the scope at an index, whatever the indices are. -/

namespace Scope

variable {ι : Type} (get? : ι → Option (Scope ι))

/-- The scope around a scope that is there. -/
def parent? (id : ι) : Option ι :=
  (get? id).bind (·.parent)

/-- The walk to the owner of a name as a loop with a bound on its rounds; `none` if the rounds do not
suffice. -/
def ownerLoop (name : String) : Nat → Option ι → Option (Option ι)
  | 0, _ => none
  | _ + 1, none => some none
  | rounds + 1, some id =>
    match get? id with
    | none => some none
    | some sc => if sc.binds name then some (some id) else ownerLoop name rounds sc.parent

/-- The count of the links to the root as a loop with a bound on its rounds. -/
def depthLoop : Nat → Nat → Option ι → Option Nat
  | 0, _, _ => none
  | _ + 1, depth, none => some depth
  | rounds + 1, depth, some id => depthLoop rounds (depth + 1) (parent? get? id)

/-- There is a way from the first scope outward to the second over scopes that are there: none before
the last binds the name, and the last binds it to `v`. -/
inductive Resolves (name : String) (v : Value) : ι → ι → Prop
  | here {s : ι} {sc : Scope ι} (live : get? s = some sc)
    (bound : sc.symbols.lookup name = some v) : Resolves name v s s
  | outward {s outer owner : ι} {sc : Scope ι} (live : get? s = some sc)
    (unbound : sc.symbols.lookup name = none) (parent : sc.parent = some outer)
    (rest : Resolves name v outer owner) : Resolves name v s owner

/-- The second scope is the first or one around it, over scopes that are there. -/
def Encloses : ι → ι → Prop :=
  Relation.ReflTransGen fun inner outer => parent? get? inner = some outer

variable {get?} {name : String} {v : Value} {s owner : ι} {sc : Scope ι}

/-- A binding changes neither the index nor the parent of any scope. -/
theorem of_mem_bind [DecidableEq ι] {live : List (ι × Scope ι)} {p : ι × Scope ι}
    (h : p ∈ live.map fun (i, sc) => if i = s then (i, sc.bind name v) else (i, sc)) :
    ∃ q ∈ live, q.1 = p.1 ∧ q.2.parent = p.2.parent := by
  obtain ⟨q, hq, rfl⟩ := List.mem_map.1 h
  refine ⟨q, hq, ?_⟩
  by_cases hs : q.1 = s <;> simp [hs, bind]

theorem parent?_of_get? (h : get? s = some sc) : parent? get? s = sc.parent := by
  simp [parent?, h]

theorem Resolves.bound_at (h : Resolves get? name v s owner) :
    ∃ sc, get? owner = some sc ∧ sc.symbols.lookup name = some v := by
  induction h with
  | here live bound => exact ⟨_, live, bound⟩
  | outward _ _ _ _ ih => exact ih

theorem Resolves.encloses (h : Resolves get? name v s owner) : Encloses get? s owner := by
  induction h with
  | here => exact .refl
  | outward live _ parent _ ih => exact .head ((parent?_of_get? live).trans parent) ih

end Scope

namespace ScopeChain

/-! ## Order of opening -/

/-- The live scopes stand in the order of their opening, the latest first, and every parent was opened
before its child. The parent itself may be closed. -/
structure Ordered (c : ScopeChain) : Prop where
  latestFirst : c.live.Pairwise fun p q => q.1 < p.1
  opened : ∀ p ∈ c.live, p.1 < c.opened
  older : ∀ p ∈ c.live, ∀ outer, p.2.parent = some outer → outer < p.1

variable {c c' : ScopeChain} {s t : ScopeId} {sc : Scope} {name : String} {v : Value}

theorem mem_of_get? (h : c.get? s = some sc) : (s, sc) ∈ c.live := by
  obtain ⟨before, after, e, -⟩ := List.lookup_eq_some_iff.1 h
  simp [e]

namespace Ordered

theorem empty : Ordered {} :=
  ⟨.nil, by simp, by simp⟩

theorem push (h : c.Ordered) {parent : Option ScopeId}
    (hp : ∀ outer, parent = some outer → outer < c.opened) : (c.push parent).2.Ordered := by
  refine ⟨List.pairwise_cons.2 ⟨h.opened, h.latestFirst⟩, ?_, ?_⟩
  · intro p hmem
    rcases List.mem_cons.1 hmem with rfl | hmem
    · exact Nat.lt_succ_self _
    · exact Nat.lt_succ_of_lt (h.opened p hmem)
  · intro p hmem
    rcases List.mem_cons.1 hmem with rfl | hmem
    · exact hp
    · exact h.older p hmem

theorem pop (h : c.Ordered) (id : ScopeId) : (c.pop id).Ordered :=
  ⟨h.latestFirst.filter _, fun p hmem => h.opened p (List.mem_filter.1 hmem).1,
    fun p hmem => h.older p (List.mem_filter.1 hmem).1⟩

theorem define (h : c.Ordered) (hd : c.define? s name v = some c') : c'.Ordered := by
  obtain rfl : c.update s (·.bind name v) = c' := by
    unfold define? at hd
    grind
  refine ⟨?_, fun p hmem => ?_, fun p hmem outer ho => ?_⟩
  · refine List.pairwise_map.2 (h.latestFirst.imp ?_)
    rintro ⟨i, inner⟩ ⟨j, outer⟩ hlt
    dsimp only
    split <;> split <;> exact hlt
  · obtain ⟨q, hq, e, -⟩ := Scope.of_mem_bind hmem
    exact e ▸ h.opened q hq
  · obtain ⟨q, hq, e, hparent⟩ := Scope.of_mem_bind hmem
    exact e ▸ h.older q hq outer (hparent.trans ho)

theorem parent_lt {s outer : Nat} (h : c.Ordered) (hs : c.get? s = some sc)
    (hp : sc.parent = some outer) : outer < s :=
  h.older _ (mem_of_get? hs) outer hp

theorem lt_opened (h : c.Ordered) (hs : c.get? s = some sc) : s < c.opened :=
  h.opened _ (mem_of_get? hs)

end Ordered

/-! ## The walk outward -/

/-- A walk down the list of live scopes that goes on from the parent of a scope could as well start
over: among scopes that stand latest first, a parent is never passed before its child. -/
theorem walk_eq {α : Type} (walk : List (ScopeId × Scope) → ScopeId → α) (stop : α)
    (look : ScopeId → Scope → (ScopeId → α) → α) (hnil : ∀ s, walk [] s = stop)
    (hcons : ∀ i sc older s, walk ((i, sc) :: older) s =
      if i = s then look i sc (walk older) else walk older s)
    (hlook : ∀ i sc k k', (∀ outer, sc.parent = some outer → k outer = k' outer) →
      look i sc k = look i sc k')
    {live : List (ScopeId × Scope)} (hlive : live.Pairwise fun p q => q.1 < p.1)
    (holder : ∀ p ∈ live, ∀ outer, p.2.parent = some outer → outer < p.1) (s : ScopeId) :
    walk live s = ((live.lookup s).map fun sc => look s sc (walk live)).getD stop := by
  induction live with
  | nil => simp [hnil]
  | cons p older ih =>
    obtain ⟨i, sc⟩ := p
    obtain ⟨hlt, hrest⟩ := List.pairwise_cons.1 hlive
    obtain ⟨hparent, hparents⟩ := List.forall_mem_cons.1 holder
    have hskip : ∀ outer, outer < i → walk older outer = walk ((i, sc) :: older) outer := by
      intro outer ho
      rw [hcons, if_neg (Nat.ne_of_gt ho)]
    by_cases hi : i = s
    · subst hi
      rw [hcons, if_pos rfl, List.lookup_cons_self, Option.map_some, Option.getD_some]
      exact hlook i sc _ _ fun outer ho => hskip outer (hparent outer ho)
    · have hne : (s == i) = false := beq_eq_false_iff_ne.2 (Ne.symm hi)
      rw [hcons, if_neg hi, ih hrest hparents, List.lookup_cons, hne]
      cases hl : older.lookup s with
      | none => rfl
      | some inner =>
        obtain ⟨before, after, e, -⟩ := List.lookup_eq_some_iff.1 hl
        have hmem : (s, inner) ∈ older := by simp [e]
        refine hlook s inner _ _ fun outer ho => hskip outer ?_
        exact Nat.lt_trans (hparents _ hmem outer ho) (hlt _ hmem)

/-- The scope around a live scope. -/
def parent? (c : ScopeChain) : ScopeId → Option ScopeId :=
  Scope.parent? c.get?

namespace Ordered

theorem owner?_eq (h : c.Ordered) (s : ScopeId) (name : String) :
    c.owner? s name = (c.get? s).bind fun sc =>
      if sc.binds name then some s else sc.parent.bind fun outer => c.owner? outer name := by
  have hwalk := walk_eq (fun live id => ownerIn live id name) none
    (fun i sc k => if sc.binds name then some i else sc.parent.bind k) (fun _ => rfl)
    (fun i sc older s => by
      rw [ownerIn]
      cases sc.parent <;> rfl)
    (fun i sc k k' hk => by cases hp : sc.parent <;> simp [hk, hp])
    h.latestFirst h.older s
  rw [owner?, hwalk, get?]
  cases c.live.lookup s <;> rfl

theorem depth_eq (h : c.Ordered) (s : ScopeId) :
    c.depth s = ((c.parent? s).map (c.depth · + 1)).getD 0 := by
  have hwalk := walk_eq depthIn 0 (fun _ sc k => (sc.parent.map (k · + 1)).getD 0) (fun _ => rfl)
    (fun i sc older s => by
      rw [depthIn]
      cases sc.parent <;> rfl)
    (fun i sc k k' hk => by cases hp : sc.parent <;> simp [hk, hp])
    h.latestFirst h.older s
  rw [depth, hwalk, parent?, Scope.parent?, get?]
  cases c.live.lookup s <;> rfl

end Ordered

/-- The walk to the owner of a name as a loop with a bound on its rounds; `none` if the rounds do not
suffice. -/
def ownerLoop (c : ScopeChain) : String → Nat → Option ScopeId → Option (Option ScopeId) :=
  Scope.ownerLoop c.get?

/-- The count of the links to the root as a loop with a bound on its rounds. -/
def depthLoop (c : ScopeChain) : Nat → Nat → Option ScopeId → Option Nat :=
  Scope.depthLoop c.get?

/-- The loop comes to an older scope in every round, so its rounds are bounded by the number of the
scope it starts in. -/
theorem Ordered.ownerLoop_eq (h : c.Ordered) (name : String) {rounds s : Nat}
    (hr : s + 1 < rounds) : c.ownerLoop name rounds (some s) = some (c.owner? s name) := by
  induction rounds generalizing s with
  | zero => omega
  | succ rounds ih =>
    rw [h.owner?_eq s name, ownerLoop, Scope.ownerLoop]
    cases hs : c.get? s with
    | none => rfl
    | some sc =>
      simp only [Option.bind_some]
      split
      · rfl
      · cases hp : sc.parent with
        | none =>
          obtain ⟨rounds, rfl⟩ : ∃ more, rounds = more + 1 := ⟨rounds - 1, by omega⟩
          rfl
        | some outer =>
          have ho := h.parent_lt hs hp
          exact ih (by omega)

theorem Ordered.depthLoop_eq (h : c.Ordered) {rounds s : Nat} (hr : s < rounds)
    (depth : Nat) : c.depthLoop rounds depth (c.parent? s) = some (depth + c.depth s) := by
  induction rounds generalizing s depth with
  | zero => omega
  | succ rounds ih =>
    rw [h.depth_eq s]
    cases hp : c.parent? s with
    | none => rfl
    | some outer =>
      obtain ⟨sc, hs, hparent⟩ := Option.bind_eq_some_iff.1 hp
      have ho := h.parent_lt hs hparent
      rw [depthLoop, Scope.depthLoop]
      refine (ih (by omega) (depth + 1)).trans ?_
      simp only [Option.map_some, Option.getD_some]
      congr 1
      omega

/-! ## What a name means -/

/-- There is a way from the first scope outward to the second over live scopes: none before the last
binds the name, and the last binds it to `v`. -/
abbrev Resolves (c : ScopeChain) : String → Value → ScopeId → ScopeId → Prop :=
  Scope.Resolves c.get?

/-- The second scope is the first or one around it, over live scopes. -/
abbrev Encloses (c : ScopeChain) : ScopeId → ScopeId → Prop :=
  Scope.Encloses c.get?

namespace Ordered

theorem resolves_of_owner? (h : c.Ordered) {owner : ScopeId} (ho : c.owner? s name = some owner) :
    ∃ v, c.Resolves name v s owner := by
  induction s using Nat.strongRecOn with
  | _ s ih =>
    rw [h.owner?_eq] at ho
    obtain ⟨sc, hs, ho⟩ := Option.bind_eq_some_iff.1 ho
    cases hb : sc.symbols.lookup name with
    | some v =>
      have hbinds : sc.binds name = true := by simp [Scope.binds, hb]
      rw [if_pos hbinds] at ho
      cases ho
      exact ⟨v, .here hs hb⟩
    | none =>
      have hbinds : ¬ sc.binds name = true := by simp [Scope.binds, hb]
      rw [if_neg hbinds] at ho
      obtain ⟨outer, hp, ho⟩ := Option.bind_eq_some_iff.1 ho
      obtain ⟨v, hv⟩ := ih outer (h.parent_lt hs hp) ho
      exact ⟨v, .outward hs hb hp hv⟩

theorem owner?_of_resolves (h : c.Ordered) {owner : ScopeId} (hr : c.Resolves name v s owner) :
    c.owner? s name = some owner := by
  induction hr with
  | here live bound =>
    rw [h.owner?_eq, live]
    simp [Scope.binds, bound]
  | outward live unbound parent _ ih =>
    rw [h.owner?_eq, live]
    simp [Scope.binds, unbound, parent, ih]

/-- The owner of a name is the end of the way to its binding. -/
theorem owner?_iff (h : c.Ordered) {owner : ScopeId} :
    c.owner? s name = some owner ↔ ∃ v, c.Resolves name v s owner :=
  ⟨h.resolves_of_owner?, fun ⟨_, hr⟩ => h.owner?_of_resolves hr⟩

theorem lookup?_iff (h : c.Ordered) :
    c.lookup? s name = some v ↔ ∃ owner, c.Resolves name v s owner := by
  constructor
  · intro hl
    obtain ⟨owner, ho, hl⟩ := Option.bind_eq_some_iff.1 hl
    obtain ⟨sc, hsc, hl⟩ := Option.bind_eq_some_iff.1 hl
    obtain ⟨w, hr⟩ := h.resolves_of_owner? ho
    obtain ⟨sc', hsc', hw⟩ := hr.bound_at
    cases hsc.symm.trans hsc'
    cases hl.symm.trans hw
    exact ⟨owner, hr⟩
  · rintro ⟨owner, hr⟩
    obtain ⟨sc, hsc, hv⟩ := hr.bound_at
    simp [lookup?, h.owner?_of_resolves hr, hsc, hv]

/-- What a name means from a scope depends on that scope and on those around it only. -/
theorem owner?_congr (h : c.Ordered) (h' : c'.Ordered)
    (hsame : ∀ t, c.Encloses s t → c'.get? t = c.get? t) (name : String) :
    c'.owner? s name = c.owner? s name := by
  induction s using Nat.strongRecOn with
  | _ s ih =>
    rw [h'.owner?_eq, h.owner?_eq, hsame s .refl]
    cases hs : c.get? s with
    | none => rfl
    | some sc =>
      simp only [Option.bind_some]
      cases hp : sc.parent with
      | none => rfl
      | some outer =>
        have hstep : c.parent? s = some outer := (Scope.parent?_of_get? hs).trans hp
        have ho := ih outer (h.parent_lt hs hp) fun t ht => hsame t (.head hstep ht)
        simp only [Option.bind_some, ho]

theorem lookup?_congr (h : c.Ordered) (h' : c'.Ordered)
    (hsame : ∀ t, c.Encloses s t → c'.get? t = c.get? t) (name : String) :
    c'.lookup? s name = c.lookup? s name := by
  unfold lookup?
  rw [h.owner?_congr h' hsame]
  cases ho : c.owner? s name with
  | none => rfl
  | some owner =>
    obtain ⟨v, hr⟩ := h.resolves_of_owner? ho
    simp only [Option.bind_eq_bind, Option.bind_some, hsame owner hr.encloses]

/-- A name means a value in a scope if that scope is its owner and the value is found. -/
theorem resolves_iff (h : c.Ordered) {owner : ScopeId} :
    c.Resolves name v s owner ↔ c.owner? s name = some owner ∧ c.lookup? s name = some v := by
  constructor
  · intro hr
    exact ⟨h.owner?_of_resolves hr, h.lookup?_iff.2 ⟨owner, hr⟩⟩
  · rintro ⟨ho, hl⟩
    obtain ⟨owner', hr⟩ := h.lookup?_iff.1 hl
    cases ho.symm.trans (h.owner?_of_resolves hr)
    exact hr

theorem encloses_lt (h : c.Ordered) (hs : s < c.opened) (ht : c.Encloses s t) : t < c.opened := by
  induction ht with
  | refl => exact hs
  | tail _ hstep ih =>
    obtain ⟨sc, hsc, hp⟩ := Option.bind_eq_some_iff.1 hstep
    exact Nat.lt_trans (h.parent_lt hsc hp) ih

end Ordered

/-! ## Histories -/

/-- An operation on scopes. -/
inductive Operation (ι : Type := ScopeId) where
  | push (parent : Option ι)
  | pop (id : ι)
  | define (id : ι) (name : String) (value : Value)

namespace Operation

/-- Whether a parent was handed out before, live or not. -/
def knowsParent (c : ScopeChain) : Operation → Bool
  | .push parent => parent.all (· < c.opened)
  | .pop _ | .define .. => true

/-- The scope that an operation may change; a new scope is none that there was. -/
def scope? {ι : Type} : Operation ι → Option ι
  | .push _ => none
  | .pop id | .define id _ _ => some id

end Operation

/-- A binding of a name in a scope. -/
structure Binding (ι : Type := ScopeId) where
  scope : ι
  name : String
  value : Value
deriving DecidableEq, Repr

/-- Scopes together with all bindings that were ever made, in order. -/
structure History where
  chain : ScopeChain := {}
  made : List Binding := []
deriving DecidableEq, Repr

namespace History

/-- Carries out an operation. A binding counts as made if the scope took it. -/
def step (h : History) : Operation → History
  | .push parent => { h with chain := (h.chain.push parent).2 }
  | .pop id => { h with chain := h.chain.pop id }
  | .define id name v =>
    match h.chain.define? id name v with
    | some c => { chain := c, made := h.made ++ [⟨id, name, v⟩] }
    | none => h

/-- Carries out operations in order; `none` if one of them opens a scope inside of a scope that was
never there. -/
def run : History → List Operation → Option History
  | h, [] => some h
  | h, op :: ops => if op.knowsParent h.chain then run (h.step op) ops else none

/-- The value of the first binding of a name that a scope took. -/
def first? (h : History) (s : ScopeId) (name : String) : Option Value :=
  (h.made.find? fun m => m.scope = s ∧ m.name = name).map (·.value)

variable {past now : History} {op : Operation} {ops : List Operation}

theorem opened_step (h : History) (op : Operation) :
    h.chain.opened ≤ (h.step op).chain.opened := by
  cases op with
  | push parent => exact Nat.le_succ _
  | pop id => exact Nat.le_refl _
  | define id name v =>
    rw [step]
    split
    · rename_i hd
      exact Nat.le_of_eq (opened_define hd).symm
    · exact Nat.le_refl _

theorem made_step (h : History) (op : Operation) : h.made <+: (h.step op).made := by
  cases op with
  | push | pop => exact List.prefix_rfl
  | define id name v =>
    rw [step]
    split
    · exact List.prefix_append ..
    · exact List.prefix_rfl

/-- An operation leaves every scope alone that it does not name. -/
theorem get?_step {s : ScopeId} (hs : s < past.chain.opened) (hop : op.scope? ≠ some s) :
    (past.step op).chain.get? s = past.chain.get? s := by
  cases op with
  | push parent => exact (get?_push ..).trans (if_neg (Nat.ne_of_lt hs))
  | pop id =>
    refine (get?_pop ..).trans (if_neg ?_)
    rintro rfl
    exact hop rfl
  | define id name v =>
    rw [step]
    split
    · rename_i hd
      obtain ⟨sc, -, -, hget⟩ := get?_define hd
      refine (hget s).trans (if_neg ?_)
      rintro rfl
      exact hop rfl
    · rfl

/-- A closed scope stays closed. -/
theorem closed_step {s : ScopeId} (hs : s < past.chain.opened) (hc : past.chain.get? s = none) :
    (past.step op).chain.get? s = none := by
  by_cases hop : op.scope? = some s
  · cases op with
    | push parent => cases hop
    | pop id =>
      cases hop
      exact (get?_pop ..).trans (if_pos rfl)
    | define id name v =>
      cases hop
      simp [step, define?, hc]
  · rw [get?_step hs hop, hc]

/-- What every operation of a history preserves holds at its end. -/
theorem run_preserves {P : History → Prop}
    (hstep : ∀ op ∈ ops, ∀ h : History, op.knowsParent h.chain = true → P h → P (h.step op))
    (hrun : past.run ops = some now) (hpast : P past) : P now := by
  induction ops generalizing past with
  | nil =>
    cases hrun
    exact hpast
  | cons op ops ih =>
    obtain ⟨hop, hops⟩ := List.forall_mem_cons.1 hstep
    rw [run] at hrun
    split at hrun
    · rename_i hk
      exact ih hops hrun (hop past hk hpast)
    · cases hrun

/-- What holds after every history: the order of opening, and that a live scope binds each name to the
value that it was given first. -/
structure Sound (h : History) : Prop where
  ordered : h.chain.Ordered
  earlier : ∀ m ∈ h.made, m.scope < h.chain.opened
  bindings : ∀ s sc, h.chain.get? s = some sc → ∀ name, sc.symbols.lookup name = h.first? s name

theorem first?_append (h : History) (m : Binding) (s : ScopeId) (name : String) :
    first? { h with made := h.made ++ [m] } s name =
      (h.first? s name).or (if m.scope = s ∧ m.name = name then some m.value else none) := by
  unfold first?
  rw [List.find?_append, Option.map_or]
  split <;> simp_all

namespace Sound

theorem empty : Sound {} :=
  ⟨.empty, by simp, fun _ _ h => by cases h⟩

theorem push (h : past.Sound) {parent : Option ScopeId}
    (hk : (Operation.push parent).knowsParent past.chain = true) :
    (past.step (.push parent)).Sound := by
  refine ⟨h.ordered.push fun outer ho => ?_, fun m hm => Nat.lt_succ_of_lt (h.earlier m hm),
    fun s sc hs name => ?_⟩
  · simpa [Operation.knowsParent, ho] using hk
  · replace hs := (get?_push ..).symm.trans hs
    split at hs
    · -- the new scope has a number that no binding was made for
      rename_i e
      cases hs
      have hnone : past.first? s name = none := by
        unfold first?
        rw [List.find?_eq_none.2, Option.map_none]
        intro m hm
        have := h.earlier m hm
        simp only [decide_eq_true_eq, not_and]
        rintro rfl
        exact absurd e (Nat.ne_of_lt this)
      exact hnone.symm
    · exact h.bindings s sc hs name

theorem pop (h : past.Sound) (id : ScopeId) : (past.step (.pop id)).Sound := by
  refine ⟨h.ordered.pop id, h.earlier, fun s sc hs name => ?_⟩
  replace hs := (get?_pop ..).symm.trans hs
  split at hs
  · cases hs
  · exact h.bindings s sc hs name

theorem define (h : past.Sound) (id : ScopeId) (name : String) (v : Value) :
    (past.step (.define id name v)).Sound := by
  rw [step]
  cases hd : past.chain.define? id name v with
  | none => exact h
  | some c =>
    obtain ⟨old, hold, hfree, hget⟩ := get?_define hd
    have hopened := opened_define hd
    refine ⟨h.ordered.define hd, fun m hm => ?_, fun s sc hs other => ?_⟩
    · show m.scope < c.opened
      rw [hopened]
      rcases List.mem_append.1 hm with hm | hm
      · exact h.earlier m hm
      · rw [List.mem_singleton.1 hm]
        exact h.ordered.lt_opened hold
    · refine Eq.trans ?_ (first?_append past ⟨id, name, v⟩ s other).symm
      replace hs := (hget s).symm.trans hs
      dsimp only
      split at hs
      · rename_i e
        cases hs
        rw [← e] at hold ⊢
        rw [Scope.bind, List.lookup_cons, ← h.bindings s old hold other]
        by_cases ho : other = name
        · simp [ho, hfree]
        · simp [beq_eq_false_iff_ne.2 ho, Ne.symm ho]
      · rename_i e
        simp [h.bindings s sc hs other, Ne.symm e]

theorem step (h : past.Sound) (hk : op.knowsParent past.chain = true) : (past.step op).Sound := by
  cases op with
  | push parent => exact h.push hk
  | pop id => exact h.pop id
  | define id name v => exact h.define id name v

theorem run (h : past.Sound) (hrun : past.run ops = some now) : now.Sound :=
  run_preserves (fun _ _ _ hk hs => hs.step hk) hrun h

end Sound

theorem made_run (hrun : past.run ops = some now) : past.made <+: now.made :=
  run_preserves (P := fun h => past.made <+: h.made)
    (fun op _ h _ hle => hle.trans (made_step h op)) hrun List.prefix_rfl

theorem closed_run {s : ScopeId} (hs : s < past.chain.opened) (hc : past.chain.get? s = none)
    (hrun : past.run ops = some now) : now.chain.get? s = none := by
  have hend : s < now.chain.opened ∧ now.chain.get? s = none :=
    run_preserves (P := fun h => s < h.chain.opened ∧ h.chain.get? s = none)
      (fun op _ h _ ⟨hlt, hnone⟩ => ⟨hlt.trans_le (opened_step h op), closed_step hlt hnone⟩)
      hrun ⟨hs, hc⟩
  exact hend.2

theorem first?_run {s : ScopeId} {name : String} {v : Value} (hrun : past.run ops = some now)
    (hv : past.first? s name = some v) : now.first? s name = some v := by
  obtain ⟨more, hmore⟩ := made_run hrun
  unfold first? at hv ⊢
  rw [← hmore, List.find?_append, Option.map_or, hv, Option.some_or]

/-- Operations on scopes that do not enclose a scope leave all that enclose it as they are. -/
theorem get?_run {s t : ScopeId} (h : past.Sound) (hs : s < past.chain.opened)
    (hrun : past.run ops = some now)
    (haway : ∀ op ∈ ops, ∀ id, op.scope? = some id → ¬ past.chain.Encloses s id)
    (ht : past.chain.Encloses s t) : now.chain.get? t = past.chain.get? t := by
  have hlt : t < past.chain.opened := h.ordered.encloses_lt hs ht
  have hend : past.chain.opened ≤ now.chain.opened ∧ now.chain.get? t = past.chain.get? t :=
    run_preserves
      (P := fun h' => past.chain.opened ≤ h'.chain.opened ∧ h'.chain.get? t = past.chain.get? t)
      (fun op hop h' _ ⟨hle, hget⟩ => ⟨hle.trans (opened_step h' op),
        (get?_step (hlt.trans_le hle) fun e => haway op hop t e ht).trans hget⟩)
      hrun ⟨Nat.le_refl _, rfl⟩
  exact hend.2

end History

/-- After every history of scopes that are opened (inside of none or of any scope that was ever
there), closed and given names:
* a live scope maps a name to the value of the first binding that it took;
* a name is looked up along the chain of live parents up to the first scope that binds it, and that
  scope is its owner;
* every parent is older than its child, so the loops that walk outward end within a number of rounds
  given by the scope they start in.

However the history goes on, a scope that stays open keeps its bindings, a closed one is never live
again, and operations on scopes that do not enclose a scope change no look-up from it. -/
theorem scope_resolution {ops : List Operation} {h : History}
    (hrun : History.run {} ops = some h) :
    (∀ s sc, h.chain.get? s = some sc → ∀ name, sc.symbols.lookup name = h.first? s name) ∧
    (∀ s name v, h.chain.lookup? s name = some v ↔ ∃ owner, h.chain.Resolves name v s owner) ∧
    (∀ s name owner, h.chain.owner? s name = some owner ↔ ∃ v, h.chain.Resolves name v s owner) ∧
    (∀ s sc outer, h.chain.get? s = some sc → sc.parent = some outer → outer < s) ∧
    (∀ s name rounds, s + 1 < rounds →
      h.chain.ownerLoop name rounds (some s) = some (h.chain.owner? s name)) ∧
    (∀ s rounds, s < rounds →
      h.chain.depthLoop rounds 0 (h.chain.parent? s) = some (h.chain.depth s)) ∧
    ∀ later h', h.run later = some h' →
      (∀ s sc sc', h.chain.get? s = some sc → h'.chain.get? s = some sc' →
        ∀ name v, sc.symbols.lookup name = some v → sc'.symbols.lookup name = some v) ∧
      (∀ s < h.chain.opened, h.chain.get? s = none → h'.chain.get? s = none) ∧
      ∀ s < h.chain.opened,
        (∀ op ∈ later, ∀ id, op.scope? = some id → ¬ h.chain.Encloses s id) →
        ∀ name, h'.chain.lookup? s name = h.chain.lookup? s name ∧
          h'.chain.owner? s name = h.chain.owner? s name := by
  have hsound : h.Sound := History.Sound.empty.run hrun
  have hord := hsound.ordered
  refine ⟨hsound.bindings, fun _ _ _ => hord.lookup?_iff, fun _ _ _ => hord.owner?_iff,
    fun _ _ _ => hord.parent_lt, fun _ name _ => hord.ownerLoop_eq name, fun s rounds hr => ?_,
    fun later h' hlater => ⟨fun s sc sc' hs hs' name v hv => ?_,
      fun s hs hc => History.closed_run hs hc hlater, fun s hs haway name => ?_⟩⟩
  · simpa using hord.depthLoop_eq hr 0
  · rw [hsound.bindings s sc hs] at hv
    rw [(hsound.run hlater).bindings s sc' hs']
    exact History.first?_run hlater hv
  · have hsame : ∀ t, h.chain.Encloses s t → h'.chain.get? t = h.chain.get? t :=
      fun t => History.get?_run hsound hs hlater haway
    have hord' := (hsound.run hlater).ordered
    exact ⟨hord.lookup?_congr hord' hsame name, hord.owner?_congr hord' hsame name⟩

/-- A scope that lost its parent, and one that was opened inside of the lost parent afterwards. -/
def orphans : List Operation := [
  .push none,
  .push (some 0),
  .define 0 "x" ⟨.slot 0, .ptr .int⟩,
  .define 1 "x" ⟨.slot 1, .ptr .int⟩,
  .define 1 "x" ⟨.slot 2, .ptr .int⟩,
  .push (some 1),
  .push (some 0),
  .pop 1,
  .push (some 1)]

/-- Operations on scopes that are not around scope 3. -/
def asides : List Operation := [
  .define 2 "x" ⟨.slot 3, .ptr .int⟩,
  .define 1 "x" ⟨.slot 3, .ptr .int⟩,
  .pop 4,
  .push (some 3),
  .define 5 "x" ⟨.slot 4, .ptr .int⟩]

theorem orphans_resolution : ∃ h h',
    History.run {} orphans = some h ∧ h.run asides = some h' ∧
    (∀ sc, h.chain.get? 0 = some sc → sc.symbols.lookup "x" = some ⟨.slot 0, .ptr .int⟩) ∧
    (∃ owner, h.chain.Resolves "x" ⟨.slot 0, .ptr .int⟩ 3 owner) ∧
    h.chain.lookup? 2 "x" = none ∧ h.chain.ownerLoop "x" 5 (some 3) = some (some 0) ∧
    h.chain.depthLoop 3 0 (h.chain.parent? 2) = some 1 ∧ h'.chain.get? 1 = none ∧
    h'.chain.lookup? 3 "x" = some ⟨.slot 0, .ptr .int⟩ := by
  obtain ⟨hbound, hlookup, -, -, hloop, hdepth, hafter⟩ := @scope_resolution orphans _ rfl
  obtain ⟨-, hclosed, haside⟩ := hafter asides _ rfl
  refine ⟨_, _, rfl, rfl, fun sc hsc => (hbound 0 sc hsc "x").trans rfl,
    (hlookup 3 "x" _).1 (by decide +kernel), by decide +kernel,
    (hloop 3 "x" 5 (by decide)).trans (by decide +kernel), (hdepth 2 3 (by decide)).trans rfl,
    hclosed 1 (by decide) rfl, (haside 3 (by decide) ?_ "x").1.trans (by decide +kernel)⟩
  intro op hop id hid henc
  have hchain : id = 3 ∨ id = 0 := by
    rcases henc.cases_head with rfl | ⟨outer, hp, hrest⟩
    · exact .inl rfl
    · cases hp
      rcases hrest.cases_head with rfl | ⟨outer, hp, -⟩
      · exact .inr rfl
      · cases hp
  simp only [asides, List.mem_cons, List.not_mem_nil, or_false] at hop
  rcases hop with rfl | rfl | rfl | rfl | rfl <;> cases hid <;> simp at hchain

end ScopeChain

end SlotIR
