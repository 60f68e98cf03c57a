import SlotIR.Proofs.Resolution

/-!
# Supplies of indices

The scopes of a `ScopeChain` are numbered by a counter. What is proved of their histories does not need
the numbers: it is enough that an index that was given out is never given out again (`Supply`), so that
the index of a closed scope stays without meaning. A counter is such a supply, and places that are used
again under a new generation are another one.

If the indices of a supply are numbered in the order in which they were given out, a history over the
supply becomes a history of a `ScopeChain` (`Pool.run_numbered`), and every walk from an index becomes
the walk from its number (`Scope.Follows`). So the results about histories hold over every supply
(`resolution_over_supply`).
-/

namespace SlotIR

open ScopeChain (Operation Binding History)

/-- A source of indices. Those that are spent were given out and are not given out again, whether or
not the scope at them is still open. -/
structure Supply (ι : Type) where
  State : Type
  start : State
  give : State → ι × State
  /-- What the closing of the scope at an index does. -/
  takeBack : State → ι → State
  Spent : State → ι → Prop
  fresh : ∀ s, ¬ Spent s (give s).1
  spent : ∀ s, Spent (give s).2 (give s).1
  spent_give : ∀ s i, Spent s i → Spent (give s).2 i
  spent_takeBack : ∀ s closed i, Spent s i → Spent (takeBack s closed) i

namespace Supply

/-- The numbers in order. -/
def counter : Supply ScopeId where
  State := Nat
  start := 0
  give opened := (opened, opened + 1)
  takeBack opened _ := opened
  Spent opened i := i < opened
  fresh := Nat.lt_irrefl
  spent := Nat.lt_succ_self
  spent_give _ _ := Nat.lt_succ_of_lt
  spent_takeBack _ _ _ h := h

/-- Room for one scope at a time. -/
structure Place where
  generation : Nat
  taken : Bool

/-- Takes the first place that is free, or a new one. -/
def takePlace : List Place → (Nat × Nat) × List Place
  | [] => ((0, 0), [⟨0, true⟩])
  | s :: places =>
    if s.taken then
      let next := takePlace places
      ((next.1.1 + 1, next.1.2), s :: next.2)
    else ((0, s.generation), { s with taken := true } :: places)

/-- Frees a place, if it is taken and of the given generation. -/
def Place.free (generation : Nat) (s : Place) : Place :=
  if s.taken ∧ s.generation = generation then ⟨generation + 1, false⟩ else s

/-- Whether a generation of a place is over or lasts. -/
def Place.Began (s : Place) (generation : Nat) : Prop :=
  generation < s.generation ∨ generation = s.generation ∧ s.taken = true

theorem Place.Began.free {s : Place} {generation : Nat} (h : s.Began generation) (closed : Nat) :
    (s.free closed).Began generation := by
  unfold Place.free
  split
  · rename_i hc
    left
    have : generation ≤ s.generation := h.elim Nat.le_of_lt fun e => Nat.le_of_eq e.1
    exact Nat.lt_succ_of_le (hc.2 ▸ this)
  · exact h

/-- Places that are used again, each time under a new generation. An index is a place and a
generation. -/
def generational : Supply (Nat × Nat) where
  State := List Place
  start := []
  give := takePlace
  takeBack places closed := places.modify closed.1 (Place.free closed.2)
  Spent places i := ∃ s, places[i.1]? = some s ∧ s.Began i.2
  fresh places := by
    fun_induction takePlace places with
    | case1 => simp
    | case2 s places taken next ih => simpa using ih
    | case3 s places free => simpa [Place.Began] using free
  spent places := by
    fun_induction takePlace places with
    | case1 => simp [Place.Began]
    | case2 s places taken next ih => simpa using ih
    | case3 s places free => simp [Place.Began]
  spent_give places i := by
    fun_induction takePlace places generalizing i with
    | case1 => simp
    | case2 s places taken next ih =>
      obtain ⟨_ | k, g⟩ := i
      · exact id
      · exact ih (k, g)
    | case3 s places free =>
      obtain ⟨_ | k, g⟩ := i
      · simpa [Place.Began] using fun h => h.elim .inl fun h => absurd h.2 free
      · exact id
  spent_takeBack places closed i := by
    rintro ⟨s, hs, hb⟩
    refine ⟨if closed.1 = i.1 then s.free closed.2 else s, ?_, ?_⟩
    · rw [List.getElem?_modify, hs]
      split <;> rfl
    · split
      · exact hb.free closed.2
      · exact hb

end Supply

variable {ι : Type}

/-! ## Walks under numbering -/

/-- The scope with numbers for indices. -/
def Scope.numbered (n : ι → ScopeId) (s : Scope ι) : Scope where
  parent := s.parent.map n
  symbols := s.symbols

namespace Scope

variable {get? : ι → Option (Scope ι)} {look? : ScopeId → Option Scope} {n : ι → ScopeId}
  {name : String} {v : Value} {i t : ι} {o : ScopeId}

/-- The scope with the number of an index is the scope at the index. -/
def Follows (n : ι → ScopeId) (get? : ι → Option (Scope ι)) (look? : ScopeId → Option Scope) :
    Prop :=
  ∀ i, look? (n i) = (get? i).map (·.numbered n)

namespace Follows

theorem of_some {s : Scope ι} (h : Follows n get? look?) (hs : get? i = some s) :
    look? (n i) = some (s.numbered n) := by
  rw [h i, hs, Option.map_some]

theorem some_of {sc : Scope} (h : Follows n get? look?) (hs : look? (n i) = some sc) :
    ∃ s, get? i = some s ∧ s.numbered n = sc := by
  rw [h i] at hs
  exact Option.map_eq_some_iff.1 hs

theorem parent? (h : Follows n get? look?) (i : ι) :
    Scope.parent? look? (n i) = (Scope.parent? get? i).map n := by
  rw [Scope.parent?, Scope.parent?, h i]
  cases get? i <;> rfl

theorem ownerLoop (h : Follows n get? look?) (name : String) (rounds : Nat) (start : Option ι) :
    Scope.ownerLoop look? name rounds (start.map n) =
      (Scope.ownerLoop get? name rounds start).map (Option.map n) := by
  induction rounds generalizing start with
  | zero => rfl
  | succ rounds ih =>
    cases start with
    | none => rfl
    | some i =>
      rw [Option.map_some, Scope.ownerLoop, Scope.ownerLoop, h i]
      cases get? i with
      | none => rfl
      | some s =>
        have hbinds : (s.numbered n).binds name = s.binds name := rfl
        simp only [Option.map_some, hbinds]
        split
        · rfl
        · exact ih s.parent

theorem depthLoop (h : Follows n get? look?) (rounds depth : Nat) (start : Option ι) :
    Scope.depthLoop look? rounds depth (start.map n) = Scope.depthLoop get? rounds depth start := by
  induction rounds generalizing depth start with
  | zero => rfl
  | succ rounds ih =>
    cases start with
    | none => rfl
    | some i =>
      rw [Option.map_some, Scope.depthLoop, Scope.depthLoop, h.parent?]
      exact ih (depth + 1) _

theorem resolves (h : Follows n get? look?) (hr : Resolves get? name v i t) :
    Resolves look? name v (n i) (n t) := by
  induction hr with
  | here live bound => exact .here (h.of_some live) bound
  | outward live unbound parent _ ih =>
    exact .outward (h.of_some live) unbound (congrArg (Option.map n) parent) ih

theorem of_resolves (h : Follows n get? look?) (hr : Resolves look? name v (n i) o) :
    ∃ t, n t = o ∧ Resolves get? name v i t := by
  generalize hs : n i = start at hr
  induction hr generalizing i with
  | here live bound =>
    subst hs
    obtain ⟨s, hs, rfl⟩ := h.some_of live
    exact ⟨i, rfl, .here hs bound⟩
  | outward live unbound parent _ ih =>
    subst hs
    obtain ⟨s, hs, rfl⟩ := h.some_of live
    obtain ⟨outer, hp, ho⟩ := Option.map_eq_some_iff.1 parent
    obtain ⟨t, ht, hrest⟩ := ih ho
    exact ⟨t, ht, .outward hs unbound hp hrest⟩

theorem of_encloses (h : Follows n get? look?) (he : Encloses look? (n i) o) :
    ∃ t, n t = o ∧ Encloses get? i t := by
  induction he with
  | refl => exact ⟨i, rfl, .refl⟩
  | tail _ hstep ih =>
    obtain ⟨t, rfl, ht⟩ := ih
    rw [h.parent?] at hstep
    obtain ⟨outer, hp, ho⟩ := Option.map_eq_some_iff.1 hstep
    exact ⟨outer, ho, ht.tail hp⟩

end Follows

end Scope

/-! ## Histories over a supply -/

/-- Scopes at the indices of a supply, the indices that were given out and the bindings that were made,
both in order. -/
structure Pool (S : Supply ι) where
  state : S.State := S.start
  given : List ι := []
  live : List (ι × Scope ι) := []
  made : List (Binding ι) := []

variable {S : Supply ι}

/-- What holds after every history: an index was given out once, and scopes and their parents are at
indices that were given out. -/
structure Pool.Lawful (p : Pool S) : Prop where
  spent : ∀ i ∈ p.given, S.Spent p.state i
  distinct : p.given.Nodup
  live : ∀ q ∈ p.live, q.1 ∈ p.given
  parents : ∀ q ∈ p.live, ∀ outer, q.2.parent = some outer → outer ∈ p.given

theorem Pool.Lawful.empty : Lawful ({} : Pool S) :=
  ⟨by simp, .nil, by simp, by simp⟩

variable [DecidableEq ι]

namespace Pool

/-- The scope at an index, if it is live. -/
def get? (p : Pool S) (id : ι) : Option (Scope ι) :=
  p.live.lookup id

/-- Whether the parent that an operation names was given out before, live or not. -/
def knowsParent (p : Pool S) : Operation ι → Bool
  | .push parent => parent.all (· ∈ p.given)
  | .pop _ | .define .. => true

/-- Binds a name in the scope at an index. -/
def bind (p : Pool S) (id : ι) (name : String) (v : Value) : Pool S :=
  { p with
    live := p.live.map fun (i, s) => if i = id then (i, s.bind name v) else (i, s)
    made := p.made ++ [⟨id, name, v⟩] }

/-- Carries out an operation. -/
def step (p : Pool S) : Operation ι → Pool S
  | .push parent =>
    let next := S.give p.state
    { p with
      state := next.2
      given := p.given ++ [next.1]
      live := (next.1, { parent }) :: p.live }
  | .pop id => { p with state := S.takeBack p.state id, live := p.live.filter (·.1 != id) }
  | .define id name v =>
    match p.get? id with
    | none => p
    | some s => if s.binds name then p else p.bind id name v

/-- Carries out operations in order; `none` if one of them opens a scope inside of a scope that was
never there. -/
def run : Pool S → List (Operation ι) → Option (Pool S)
  | p, [] => some p
  | p, op :: ops => if p.knowsParent op then run (p.step op) ops else none

/-- The value of the first binding of a name that the scope at an index took. -/
def first? (p : Pool S) (id : ι) (name : String) : Option Value :=
  (p.made.find? fun m => m.scope = id ∧ m.name = name).map (·.value)

variable {p p' : Pool S} {op : Operation ι} {ops : List (Operation ι)} {i : ι} {s : Scope ι}

theorem step_define (p : Pool S) (id : ι) (name : String) (v : Value) :
    p.step (.define id name v) = p ∨ p.step (.define id name v) = p.bind id name v := by
  rw [step]
  split
  · exact .inl rfl
  · split
    · exact .inl rfl
    · exact .inr rfl

/-- What every operation preserves holds at the end of a history. -/
theorem run_preserves {P : Pool S → Prop}
    (hstep : ∀ op p, p.knowsParent op = true → P p → P (p.step op)) (hrun : p.run ops = some p')
    (hp : P p) : P p' := by
  induction ops generalizing p with
  | nil =>
    cases hrun
    exact hp
  | cons op ops ih =>
    rw [run] at hrun
    split at hrun
    · rename_i hk
      exact ih hrun (hstep op p hk hp)
    · cases hrun

namespace Lawful

theorem push (h : p.Lawful) {parent : Option ι} (hk : p.knowsParent (.push parent) = true) :
    (p.step (.push parent)).Lawful := by
  have hparent : ∀ outer, parent = some outer → outer ∈ p.given := by
    rintro outer rfl
    simpa [knowsParent] using hk
  refine ⟨fun i hi => ?_, ?_, ?_, ?_⟩
  · rcases List.mem_append.1 hi with hi | hi
    · exact S.spent_give _ i (h.spent i hi)
    · rw [List.mem_singleton.1 hi]
      exact S.spent p.state
  · refine List.nodup_append.2 ⟨h.distinct, List.nodup_singleton _, ?_⟩
    rintro i hi j hj rfl
    rw [List.mem_singleton.1 hj] at hi
    exact S.fresh p.state (h.spent _ hi)
  · exact List.forall_mem_cons.2 ⟨List.mem_concat_self,
      fun q hq => List.mem_append_left _ (h.live q hq)⟩
  · exact List.forall_mem_cons.2 ⟨fun outer ho => List.mem_append_left _ (hparent outer ho),
      fun q hq outer ho => List.mem_append_left _ (h.parents q hq outer ho)⟩

theorem pop (h : p.Lawful) (id : ι) : (p.step (.pop id)).Lawful :=
  ⟨fun i hi => S.spent_takeBack _ _ i (h.spent i hi), h.distinct,
    fun q hq => h.live q (List.mem_filter.1 hq).1,
    fun q hq => h.parents q (List.mem_filter.1 hq).1⟩

theorem bind (h : p.Lawful) (id : ι) (name : String) (v : Value) : (p.bind id name v).Lawful := by
  refine ⟨h.spent, h.distinct, fun q hq => ?_, fun q hq outer ho => ?_⟩
  · obtain ⟨q₀, hq₀, e, -⟩ := Scope.of_mem_bind hq
    exact e ▸ h.live q₀ hq₀
  · obtain ⟨q₀, hq₀, -, e⟩ := Scope.of_mem_bind hq
    exact h.parents q₀ hq₀ outer (e.trans ho)

theorem step (h : p.Lawful) (hk : p.knowsParent op = true) : (p.step op).Lawful := by
  cases op with
  | push parent => exact h.push hk
  | pop id => exact h.pop id
  | define id name v =>
    rcases p.step_define id name v with e | e <;> rw [e]
    · exact h
    · exact h.bind id name v

theorem run (h : p.Lawful) (hrun : p.run ops = some p') : p'.Lawful :=
  run_preserves (fun _ _ hk hp => hp.step hk) hrun h

theorem mem_given (h : p.Lawful) (hs : p.get? i = some s) : i ∈ p.given := by
  obtain ⟨before, after, e, -⟩ := List.lookup_eq_some_iff.1 hs
  exact h.live (i, s) (by simp [e])

theorem encloses_mem_given (h : p.Lawful) {t : ι} (hi : i ∈ p.given)
    (ht : Scope.Encloses p.get? i t) : t ∈ p.given := by
  cases ht with
  | refl => exact hi
  | @tail j _ _ hstep =>
    obtain ⟨s, hs, ho⟩ := Option.bind_eq_some_iff.1 hstep
    obtain ⟨before, after, e, -⟩ := List.lookup_eq_some_iff.1 hs
    exact h.parents (j, s) (by simp [e]) t ho

end Lawful

theorem given_step (p : Pool S) (op : Operation ι) : p.given <+: (p.step op).given := by
  cases op with
  | push parent => exact List.prefix_append ..
  | pop id => exact List.prefix_rfl
  | define id name v =>
    rcases p.step_define id name v with e | e <;> rw [e] <;> exact List.prefix_rfl

theorem given_run (hrun : p.run ops = some p') : p.given <+: p'.given :=
  run_preserves (P := fun later => p.given <+: later.given)
    (fun op q _ hle => hle.trans (given_step q op)) hrun List.prefix_rfl

end Pool

/-! ## Numbering -/

/-- The indices that were given out have the numbers of their order, and all others later ones. -/
structure Numbers (n : ι → ScopeId) (given : List ι) : Prop where
  place : ∀ k i, given[k]? = some i → n i = k
  others : ∀ i, i ∉ given → given.length ≤ n i

namespace Numbers

variable {n : ι → ScopeId} {given given' : List ι} {i j : ι}

theorem lt_length_iff (h : Numbers n given) : n i < given.length ↔ i ∈ given := by
  constructor
  · intro hlt
    by_contra hi
    exact absurd (h.others i hi) (Nat.not_le_of_lt hlt)
  · intro hi
    obtain ⟨k, hk⟩ := List.mem_iff_getElem?.1 hi
    rw [h.place k i hk]
    exact (List.getElem?_eq_some_iff.1 hk).1

theorem eq_iff (h : Numbers n given) (hi : i ∈ given) : n i = n j ↔ i = j := by
  refine ⟨fun e => ?_, congrArg n⟩
  have hj : j ∈ given := h.lt_length_iff.1 (e ▸ h.lt_length_iff.2 hi)
  obtain ⟨k, hk⟩ := List.mem_iff_getElem?.1 hi
  obtain ⟨l, hl⟩ := List.mem_iff_getElem?.1 hj
  rw [h.place k i hk, h.place l j hl] at e
  subst e
  exact Option.some.inj (hk.symm.trans hl)

theorem of_prefix (h : Numbers n given') (hp : given <+: given') : Numbers n given := by
  obtain ⟨more, rfl⟩ := hp
  refine ⟨fun k i hk => h.place k i ?_, fun i hi => ?_⟩
  · rw [List.getElem?_append_left (List.getElem?_eq_some_iff.1 hk).1, hk]
  · by_contra hlt
    have hlt : n i < given.length := Nat.lt_of_not_le hlt
    have hmem : i ∈ given ++ more := by
      refine h.lt_length_iff.1 ?_
      rw [List.length_append]
      exact Nat.lt_add_right _ hlt
    obtain ⟨k, hk⟩ := List.mem_iff_getElem?.1 hmem
    rw [h.place k i hk] at hlt
    rw [List.getElem?_append_left hlt] at hk
    exact hi (List.mem_of_getElem? hk)

/-- Indices that were given out once each can be numbered. -/
theorem idxOf (h : given.Nodup) : Numbers (given.idxOf ·) given := by
  refine ⟨fun k i hk => ?_, fun i hi => Nat.le_of_eq (List.idxOf_eq_length hi).symm⟩
  obtain ⟨hlt, rfl⟩ := List.getElem?_eq_some_iff.1 hk
  exact h.idxOf_getElem k hlt

theorem range (k : Nat) : Numbers id (List.range k) := by
  refine ⟨fun j i hj => ?_, fun i hi => ?_⟩
  · obtain ⟨hlt, rfl⟩ := List.getElem?_eq_some_iff.1 hj
    exact List.getElem_range hlt
  · simpa using hi

end Numbers

namespace ScopeChain

def Operation.numbered (n : ι → ScopeId) : Operation ι → Operation
  | .push parent => .push (parent.map n)
  | .pop id => .pop (n id)
  | .define id name v => .define (n id) name v

def Binding.numbered (n : ι → ScopeId) (m : Binding ι) : Binding where
  scope := n m.scope
  name := m.name
  value := m.value

end ScopeChain

namespace Pool

/-- The history of a chain in which the scopes have the numbers of their indices. -/
def numbered (n : ι → ScopeId) (p : Pool S) : History where
  chain := { opened := p.given.length, live := p.live.map fun (i, s) => (n i, s.numbered n) }
  made := p.made.map (·.numbered n)

variable {p p' : Pool S} {n : ι → ScopeId} {op : Operation ι} {ops : List (Operation ι)} {i : ι}

theorem lookup_numbered {live : List (ι × Scope ι)}
    (h : ∀ q ∈ live, n q.1 = n i ↔ q.1 = i) :
    (live.map fun (i, s) => (n i, s.numbered n)).lookup (n i) =
      (live.lookup i).map (·.numbered n) := by
  induction live with
  | nil => rfl
  | cons q live ih =>
    obtain ⟨hq, hlive⟩ := List.forall_mem_cons.1 h
    rw [List.map_cons, List.lookup_cons, List.lookup_cons, ih hlive]
    by_cases e : q.1 = i
    · simp [e]
    · have e' : n q.1 ≠ n i := mt hq.1 e
      simp [beq_eq_false_iff_ne.2 (Ne.symm e), beq_eq_false_iff_ne.2 (Ne.symm e')]

theorem get?_numbered (hn : Numbers n p.given) (hp : p.Lawful) (i : ι) :
    (p.numbered n).chain.get? (n i) = (p.get? i).map (·.numbered n) :=
  lookup_numbered fun q hq => hn.eq_iff (hp.live q hq)

theorem knowsParent_numbered (hn : Numbers n p.given) (op : Operation ι) :
    (op.numbered n).knowsParent (p.numbered n).chain = p.knowsParent op := by
  cases op with
  | pop | define => rfl
  | push parent =>
    cases parent with
    | none => rfl
    | some outer => exact decide_eq_decide.2 hn.lt_length_iff

theorem pop_numbered (hn : Numbers n p.given) (hp : p.Lawful) (id : ι) :
    (p.step (.pop id)).numbered n = (p.numbered n).step (.pop (n id)) := by
  have hlive : (p.live.map fun (i, s) => (n i, s.numbered n)).filter (·.1 != n id) =
      (p.live.filter (·.1 != id)).map fun (i, s) => (n i, s.numbered n) := by
    rw [List.filter_map]
    congr 1
    refine List.filter_congr fun q hq => ?_
    have hiff := hn.eq_iff (j := id) (hp.live q hq)
    simp [bne, hiff]
  simp only [numbered, step, History.step, ScopeChain.pop, hlive]

theorem bind_numbered (hn : Numbers n p.given) (hp : p.Lawful) (id : ι) (name : String) (v : Value) :
    (p.bind id name v).numbered n =
      { chain := (p.numbered n).chain.update (n id) (·.bind name v)
        made := (p.numbered n).made ++ [⟨n id, name, v⟩] } := by
  have hlive : (p.bind id name v).live.map (fun (i, s) => (n i, s.numbered n)) =
      ((p.numbered n).chain.update (n id) (·.bind name v)).live := by
    simp only [bind, numbered, ScopeChain.update, List.map_map]
    refine List.map_congr_left fun q hq => ?_
    have hiff := hn.eq_iff (j := id) (hp.live q hq)
    by_cases e : q.1 = id
    · simp [e, Scope.numbered, Scope.bind]
    · simp [e, hiff]
  simp only [numbered, History.mk.injEq] at hlive ⊢
  refine ⟨?_, by simp [bind, Binding.numbered]⟩
  rw [hlive]
  rfl

/-- Numbering commutes with every operation. -/
theorem step_numbered (hn : Numbers n (p.step op).given) (hp : p.Lawful) :
    (p.step op).numbered n = (p.numbered n).step (op.numbered n) := by
  have hpast : Numbers n p.given := hn.of_prefix (given_step p op)
  cases op with
  | push parent =>
    -- the new index has the number that the counter gives out
    have hnew : n (S.give p.state).1 = p.given.length :=
      hn.place p.given.length _ (by simp [step])
    simp [numbered, step, History.step, ScopeChain.push, Operation.numbered, Scope.numbered, hnew]
  | pop id => exact pop_numbered hpast hp id
  | define id name v =>
    rw [step, Operation.numbered, History.step, ScopeChain.define?, get?_numbered hpast hp]
    cases p.get? id with
    | none => rfl
    | some s =>
      have hbinds : (s.numbered n).binds name = s.binds name := rfl
      simp only [Option.map_some, hbinds]
      split
      · rfl
      · exact bind_numbered hpast hp id name v

/-- Numbering turns a history over a supply into one of a chain. -/
theorem run_numbered (hn : Numbers n p'.given) (hp : p.Lawful) (hrun : p.run ops = some p') :
    (p.numbered n).run (ops.map (·.numbered n)) = some (p'.numbered n) := by
  induction ops generalizing p with
  | nil =>
    cases hrun
    rfl
  | cons op ops ih =>
    rw [run] at hrun
    split at hrun
    · rename_i hk
      have hstep : Numbers n (p.step op).given := hn.of_prefix (given_run hrun)
      have hpast : Numbers n p.given := hstep.of_prefix (given_step p op)
      rw [List.map_cons, History.run, knowsParent_numbered hpast, if_pos hk,
        ← step_numbered hstep hp]
      exact ih (hp.step hk) hrun
    · cases hrun

theorem first?_numbered (hn : Numbers n p.given) (hi : i ∈ p.given) (name : String) :
    (p.numbered n).first? (n i) name = p.first? i name := by
  have hiff : ∀ j, n j = n i ↔ j = i := fun j => by
    rw [eq_comm, hn.eq_iff hi, eq_comm]
  simp [History.first?, first?, numbered, List.find?_map, Function.comp_def, Binding.numbered, hiff]

/-- Over the counter, a history is the one of the chain: the index of a scope is its number. -/
theorem run_counter (ops : List Operation) :
    (run ({} : Pool Supply.counter) ops).map (numbered id) = History.run {} ops := by
  suffices hrun : ∀ p : Pool Supply.counter, p.Lawful → p.given = List.range p.state →
      (p.run ops).map (numbered id) = (p.numbered id).run ops from hrun {} .empty rfl
  induction ops with
  | nil =>
    intro p _ _
    rfl
  | cons op ops ih =>
    intro p hp hgiven
    have hnext : (p.step op).given = List.range (p.step op).state := by
      cases op with
      | push parent =>
        rw [step, hgiven]
        exact List.range_succ.symm
      | pop id => exact hgiven
      | define id name v =>
        rcases p.step_define id name v with e | e <;> rw [e] <;> exact hgiven
    have hop : op.numbered id = op := by
      cases op <;> simp [Operation.numbered]
    have hk := knowsParent_numbered (hgiven ▸ Numbers.range p.state) op
    have hstep := step_numbered (hnext ▸ Numbers.range (p.step op).state) hp
    rw [hop] at hk hstep
    rw [run, History.run, hk, ← hstep]
    split
    · rename_i hknows
      exact ih _ (hp.step hknows) hnext
    · rfl

end Pool

/-! ## Results over every supply -/

/-- A pool after a history, with numbers for the indices that were given out. -/
structure Pool.Counted (n : ι → ScopeId) (p : Pool S) : Prop where
  lawful : p.Lawful
  numbers : Numbers n p.given
  sound : (p.numbered n).Sound

namespace Pool.Counted

variable {p p' : Pool S} {n : ι → ScopeId} {ops later : List (Operation ι)} {name : String}
  {v : Value} {i t : ι}

theorem of_run (hrun : run {} ops = some p) (hn : Numbers n p.given) : p.Counted n :=
  ⟨.run .empty hrun, hn, History.Sound.empty.run (run_numbered hn .empty hrun)⟩

theorem follows (h : p.Counted n) : Scope.Follows n p.get? (p.numbered n).chain.get? :=
  get?_numbered h.numbers h.lawful

theorem resolves_iff (h : p.Counted n) :
    (p.numbered n).chain.Resolves name v (n i) (n t) ↔ Scope.Resolves p.get? name v i t := by
  refine ⟨fun hr => ?_, h.follows.resolves⟩
  obtain ⟨t', ht, hr'⟩ := h.follows.of_resolves hr
  obtain ⟨s, hs, -⟩ := hr'.bound_at
  rwa [← (h.numbers.eq_iff (h.lawful.mem_given hs)).1 ht]

theorem encloses (h : p.Counted n) (hi : i ∈ p.given)
    (he : (p.numbered n).chain.Encloses (n i) (n t)) : Scope.Encloses p.get? i t := by
  obtain ⟨t', ht, he'⟩ := h.follows.of_encloses he
  rwa [← (h.numbers.eq_iff (h.lawful.encloses_mem_given hi he')).1 ht]

/-- A live scope binds each name to the value that it was given first. -/
theorem lookup_eq (h : p.Counted n) {s : Scope ι} (hs : p.get? i = some s) (name : String) :
    s.symbols.lookup name = (p.numbered n).first? (n i) name :=
  h.sound.bindings _ _ (h.follows.of_some hs) name

/-- The walk to the owner of a name ends at the first scope outward that binds the name. -/
theorem ownerLoop_ends (h : p.Counted n) (hi : i ∈ p.given) (name : String) {rounds : Nat}
    (hr : p.given.length < rounds) :
    ∃ owner, Scope.ownerLoop p.get? name rounds (some i) = some owner ∧
      ∀ t, owner = some t ↔ ∃ v, Scope.Resolves p.get? name v i t := by
  have hord := h.sound.ordered
  have hlt : n i < p.given.length := h.numbers.lt_length_iff.2 hi
  have hend := hord.ownerLoop_eq name (Nat.lt_of_le_of_lt (Nat.succ_le_of_lt hlt) hr)
  have hloop := h.follows.ownerLoop name rounds (some i)
  obtain ⟨owner, ho, hmap⟩ := Option.map_eq_some_iff.1 (hloop.symm.trans hend)
  refine ⟨owner, ho, fun t => ⟨?_, ?_⟩⟩
  · rintro rfl
    obtain ⟨v, hv⟩ := hord.owner?_iff.1 hmap.symm
    exact ⟨v, h.resolves_iff.1 hv⟩
  · rintro ⟨v, hv⟩
    have howner := hord.owner?_of_resolves (h.resolves_iff.2 hv)
    obtain ⟨t', rfl, ht⟩ := Option.map_eq_some_iff.1 (hmap.trans howner)
    obtain ⟨s, hs, -⟩ := hv.bound_at
    rw [(h.numbers.eq_iff (h.lawful.mem_given hs)).1 ht.symm]

theorem depthLoop_ends (h : p.Counted n) (hi : i ∈ p.given) {rounds : Nat}
    (hr : p.given.length ≤ rounds) :
    ∃ depth, Scope.depthLoop p.get? rounds 0 (Scope.parent? p.get? i) = some depth := by
  have hlt : n i < p.given.length := h.numbers.lt_length_iff.2 hi
  have hend := h.sound.ordered.depthLoop_eq (Nat.lt_of_lt_of_le hlt hr) 0
  have hloop := h.follows.depthLoop rounds 0 (Scope.parent? p.get? i)
  rw [← h.follows.parent?] at hloop
  exact ⟨_, hloop.symm.trans hend⟩

/-- Operations on scopes that do not enclose a scope change no look-up from it. -/
theorem resolves_run (h : p.Counted n) (h' : p'.Counted n) (hlater : p.run later = some p')
    (hi : i ∈ p.given)
    (haway : ∀ op ∈ later, ∀ id, op.scope? = some id → ¬ Scope.Encloses p.get? i id) :
    Scope.Resolves p'.get? name v i t ↔ Scope.Resolves p.get? name v i t := by
  have hrun := run_numbered h'.numbers h.lawful hlater
  have hlt : n i < p.given.length := h.numbers.lt_length_iff.2 hi
  have hfar : ∀ op ∈ later.map (Operation.numbered n), ∀ o, op.scope? = some o →
      ¬ (p.numbered n).chain.Encloses (n i) o := by
    intro _ hmem o ho he
    obtain ⟨op, hop, rfl⟩ := List.mem_map.1 hmem
    obtain ⟨id, hid, rfl⟩ : ∃ id, op.scope? = some id ∧ n id = o := by
      cases op with
      | push => cases ho
      | pop id | define id => exact ⟨id, rfl, Option.some.inj ho⟩
    exact haway op hop id hid (h.encloses hi he)
  have hsame : ∀ o, (p.numbered n).chain.Encloses (n i) o →
      (p'.numbered n).chain.get? o = (p.numbered n).chain.get? o :=
    fun o => History.get?_run h.sound hlt hrun hfar
  have hord := h.sound.ordered
  have hord' := h'.sound.ordered
  rw [← h.resolves_iff, ← h'.resolves_iff, hord.resolves_iff, hord'.resolves_iff,
    hord.owner?_congr hord' hsame, hord.lookup?_congr hord' hsame]

end Pool.Counted

/-- Over every supply of indices and after every history, a live scope maps a name to the value of the
first binding that it took, and the loops that walk outward end: at the first scope that binds the
name, and at the root.

However the history goes on, a scope that stays open keeps its bindings, no scope is live again at the
index of a closed one, and operations on scopes that do not enclose a scope change no look-up from
it. -/
theorem resolution_over_supply {ops : List (Operation ι)} {p : Pool S}
    (hrun : Pool.run {} ops = some p) :
    (∀ i s, p.get? i = some s → ∀ name, s.symbols.lookup name = p.first? i name) ∧
    (∀ i ∈ p.given, ∀ name rounds, p.given.length < rounds →
      ∃ owner, Scope.ownerLoop p.get? name rounds (some i) = some owner ∧
        ∀ t, owner = some t ↔ ∃ v, Scope.Resolves p.get? name v i t) ∧
    (∀ i ∈ p.given, ∀ rounds, p.given.length ≤ rounds →
      ∃ depth, Scope.depthLoop p.get? rounds 0 (Scope.parent? p.get? i) = some depth) ∧
    ∀ later p', p.run later = some p' →
      (∀ i s s', p.get? i = some s → p'.get? i = some s' →
        ∀ name v, s.symbols.lookup name = some v → s'.symbols.lookup name = some v) ∧
      (∀ i ∈ p.given, p.get? i = none → p'.get? i = none) ∧
      ∀ i ∈ p.given,
        (∀ op ∈ later, ∀ id, op.scope? = some id → ¬ Scope.Encloses p.get? i id) →
        ∀ name v t, Scope.Resolves p'.get? name v i t ↔ Scope.Resolves p.get? name v i t := by
  have hp : p.Lawful := .run .empty hrun
  have h : p.Counted _ := .of_run hrun (.idxOf hp.distinct)
  refine ⟨fun i s hs name => ?_, fun i hi name rounds => h.ownerLoop_ends hi name,
    fun i hi rounds => h.depthLoop_ends hi, fun later p' hlater => ?_⟩
  · rw [h.lookup_eq hs, Pool.first?_numbered h.numbers (hp.mem_given hs)]
  -- one numbering serves before and after, that of all indices given out at the end
  have hp' : p'.Lawful := hp.run hlater
  have hn' := Numbers.idxOf hp'.distinct
  have h : p.Counted _ := .of_run hrun (hn'.of_prefix (Pool.given_run hlater))
  have hlater' := Pool.run_numbered hn' hp hlater
  have h' : p'.Counted _ := ⟨hp', hn', h.sound.run hlater'⟩
  refine ⟨fun i s s' hs hs' name v hv => ?_, fun i hi hc => ?_,
    fun i hi haway name v t => h.resolves_run h' hlater hi haway⟩
  · rw [h.lookup_eq hs] at hv
    rw [h'.lookup_eq hs']
    exact History.first?_run hlater' hv
  · have hclosed := History.closed_run (h.numbers.lt_length_iff.2 hi)
      ((h.follows i).trans (congrArg _ hc)) hlater'
    exact Option.map_eq_none_iff.1 ((h'.follows i).symm.trans hclosed)

-- a place is used again, but not an index
example :
    ((Pool.run (S := .generational) {} [.push none, .pop (0, 0), .push none]).map fun p =>
      (p.given, (p.get? (0, 0)).isSome, (p.get? (0, 1)).isSome)) =
      some ([(0, 0), (0, 1)], false, true) := rfl

end SlotIR
