import SlotIR.Scope

/-!
# Nested scopes

While a tree is walked, the live scopes form a stack: each was opened inside of the one behind it.
Then a name means its first binding in the list of all bindings, innermost scope first
(`ScopeChain.Nested.lookup?_eq`), and opening, closing and binding act on the top of the stack only.
-/

namespace SlotIR

/-- Every scope is inside of the next one and was opened after it. -/
def Linked : List (ScopeId × Scope) → Prop
  | [] => True
  | (id, s) :: outer =>
    s.parent = outer.head?.map (·.1) ∧ (∀ p ∈ outer, p.1 < id) ∧ Linked outer

/-- The bindings of scopes, in order. -/
def bindingsOf (live : List (ScopeId × Scope)) : List (String × Value) :=
  live.flatMap (·.2.symbols)

@[simp] theorem bindingsOf_cons (id : ScopeId) (s : Scope) (outer : List (ScopeId × Scope)) :
    bindingsOf ((id, s) :: outer) = s.symbols ++ bindingsOf outer := by
  simp [bindingsOf]

theorem ownerIn_mem {live : List (ScopeId × Scope)} :
    ∀ {id o : ScopeId} {name : String}, ScopeChain.ownerIn live id name = some o →
      ∃ p ∈ live, p.1 = o := by
  induction live with
  | nil =>
    intro id o name h
    cases h
  | cons p outer ih =>
    obtain ⟨i, s⟩ := p
    have tail : ∀ {id' : ScopeId} {o : ScopeId} {name : String},
        ScopeChain.ownerIn outer id' name = some o → ∃ p ∈ (i, s) :: outer, p.1 = o := by
      intro id' o name h
      obtain ⟨p, hp, e⟩ := ih h
      exact ⟨p, List.mem_cons_of_mem _ hp, e⟩
    intro id o name h
    unfold ScopeChain.ownerIn at h
    split at h
    · split at h
      · cases h
        exact ⟨(i, s), List.mem_cons_self, rfl⟩
      · split at h
        · cases h
        · exact tail h
    · exact tail h

/-- Walking outward from the top of a stack finds the first binding. -/
theorem owner_bind_eq {live : List (ScopeId × Scope)} :
    ∀ {id : ScopeId} {s : Scope} {outer : List (ScopeId × Scope)} (name : String),
      live = (id, s) :: outer → Linked live →
      ((ScopeChain.ownerIn live id name).bind fun o =>
        (live.lookup o).bind fun s => s.symbols.lookup name) = (bindingsOf live).lookup name := by
  induction live with
  | nil =>
    intro id s outer name e
    cases e
  | cons p rest ih =>
    intro id s outer name e hl
    cases e
    obtain ⟨hp, hlt, hrest⟩ := hl
    rw [ScopeChain.ownerIn, if_pos rfl, bindingsOf_cons, List.lookup_append]
    cases hb : s.symbols.lookup name with
    | some v =>
      have hs : s.binds name = true := by rw [Scope.binds, hb]; rfl
      rw [if_pos hs, Option.bind_some, List.lookup_cons_self, Option.bind_some, hb]
      rfl
    | none =>
      have hs : ¬ s.binds name = true := by rw [Scope.binds, hb]; simp
      rw [if_neg hs, Option.none_or]
      cases hr : rest with
      | nil =>
        rw [hr] at hp
        rw [hp]
        rfl
      | cons q outer' =>
        obtain ⟨id', s'⟩ := q
        have hp' : s.parent = some id' := by
          rw [hp, hr]
          rfl
        rw [hp', ← hr, ← ih name hr hrest]
        show (ScopeChain.ownerIn rest id' name).bind _ = _
        cases ho : ScopeChain.ownerIn rest id' name with
        | none => rfl
        | some o =>
          -- the owner is an outer scope, so the top of the stack does not hide it
          obtain ⟨q, hq, rfl⟩ := ownerIn_mem ho
          have hne : (q.1 == id) = false := beq_eq_false_iff_ne.2 (Nat.ne_of_lt (hlt q hq))
          simp only [Option.bind_some, List.lookup_cons, hne]

namespace ScopeChain

/-- The live scopes are a stack with the scope `s`, numbered `id`, on top. -/
structure Nested (c : ScopeChain) (id : ScopeId) (s : Scope) (outer : List (ScopeId × Scope)) :
    Prop where
  live : c.live = (id, s) :: outer
  linked : Linked c.live
  opened : id < c.opened

namespace Nested

variable {c : ScopeChain} {id : ScopeId} {s : Scope} {outer : List (ScopeId × Scope)}
  {name : String}

theorem get?_eq (h : c.Nested id s outer) : c.get? id = some s := by
  rw [get?, h.live, List.lookup_cons_self]

theorem lookup?_eq (h : c.Nested id s outer) :
    c.lookup? id name = (bindingsOf c.live).lookup name :=
  owner_bind_eq name h.live h.linked

theorem outer_lt (h : c.Nested id s outer) : ∀ p ∈ outer, p.1 < id := by
  have := h.linked
  rw [h.live] at this
  exact this.2.1

theorem outer_linked (h : c.Nested id s outer) : Linked outer := by
  have := h.linked
  rw [h.live] at this
  exact this.2.2

/-- A binding that can be made is made in the scope on top. -/
theorem define (h : c.Nested id s outer) {v : Value} {c' : ScopeChain}
    (hd : c.define? id name v = some c') :
    s.binds name = false ∧ c'.Nested id (s.bind name v) outer := by
  unfold define? at hd
  rw [h.get?_eq] at hd
  dsimp only at hd
  split at hd
  · cases hd
  · rename_i hb
    cases hd
    have hlive : (c.update id (·.bind name v)).live = (id, s.bind name v) :: outer := by
      rw [update, h.live, List.map_cons]
      refine List.cons_eq_cons.2 ⟨if_pos rfl, ?_⟩
      refine (List.map_congr_left fun p hp => ?_).trans (List.map_id outer)
      exact if_neg (Nat.ne_of_lt (h.outer_lt p hp))
    refine ⟨by simpa using hb, hlive, ?_, h.opened⟩
    have hl := h.linked
    rw [h.live] at hl
    rw [hlive]
    exact hl

/-- A binding that was made comes before all others. -/
theorem bindings_define (h : c.Nested id s outer) {v : Value} {c' : ScopeChain}
    (hd : c.define? id name v = some c') : bindingsOf c'.live = (name, v) :: bindingsOf c.live := by
  rw [(h.define hd).2.live, h.live, bindingsOf_cons, bindingsOf_cons]
  rfl

theorem push (h : c.Nested id s outer) :
    (c.push (some id)).2.Nested c.opened { parent := some id } ((id, s) :: outer) := by
  refine ⟨by rw [ScopeChain.push, h.live], ?_, Nat.lt_succ_self _⟩
  show Linked ((c.opened, { parent := some id }) :: c.live)
  rw [h.live]
  have hl := h.linked
  rw [h.live] at hl
  refine ⟨rfl, fun p hp => ?_, hl⟩
  have ho := h.opened
  rcases List.mem_cons.1 hp with rfl | hp
  · exact ho
  · exact Nat.lt_trans (h.outer_lt p hp) ho

/-- Closing the scope on top uncovers the one around it. -/
theorem pop {id' : ScopeId} {s' : Scope} (h : c.Nested id' s' ((id, s) :: outer)) :
    (c.pop id').Nested id s outer := by
  have hlive : (c.pop id').live = (id, s) :: outer := by
    rw [ScopeChain.pop, h.live, List.filter_cons_of_neg (by simp), List.filter_eq_self]
    intro p hp
    exact bne_iff_ne.2 (Nat.ne_of_lt (h.outer_lt p hp))
  refine ⟨hlive, ?_, ?_⟩
  · rw [hlive]
    exact h.outer_linked
  · exact Nat.lt_trans (h.outer_lt _ List.mem_cons_self) h.opened

end Nested

end ScopeChain

end SlotIR
