import SlotIR.Proofs.Edits

/-!
# Scopes over time

Live scopes have numbers below the number of scopes ever opened (`ScopeChain.Numbered`), so a new scope
hides none. A stretch of building may bind new names in one scope and leave every other live scope as it
is (`ScopeChain.Widens`); what it does in a scope that it opens and closes itself cannot be seen
afterwards (`Widens.close`).
-/

namespace SlotIR

namespace ScopeChain

variable {c c' c'' : ScopeChain} {scope : ScopeId}

theorem get?_push (c : ScopeChain) (parent : Option ScopeId) (id : ScopeId) :
    (c.push parent).2.get? id = if id = c.opened then some { parent } else c.get? id := by
  by_cases h : id = c.opened
  · simp [push, get?, h]
  · have hne : (id == c.opened) = false := beq_eq_false_iff_ne.2 h
    simp [push, get?, List.lookup_cons, h, hne]

theorem get?_pop (c : ScopeChain) (closed id : ScopeId) :
    (c.pop closed).get? id = if id = closed then none else c.get? id := by
  unfold pop get?
  induction c.live with
  | nil => simp
  | cons p live ih =>
    obtain ⟨i, s⟩ := p
    by_cases hi : i = closed
    · subst hi
      rw [List.filter_cons_of_neg (by simp), ih, List.lookup_cons]
      by_cases hid : id = i
      · simp [hid]
      · simp [hid, beq_eq_false_iff_ne.2 hid]
    · rw [List.filter_cons_of_pos (by simpa using hi), List.lookup_cons, List.lookup_cons, ih]
      by_cases hid : id = i
      · simp [hid, hi]
      · simp [beq_eq_false_iff_ne.2 hid]

theorem get?_update (c : ScopeChain) (changed id : ScopeId) (change : Scope → Scope) :
    (c.update changed change).get? id =
      if id = changed then (c.get? id).map change else c.get? id := by
  unfold update get?
  induction c.live with
  | nil => simp
  | cons p live ih =>
    obtain ⟨i, s⟩ := p
    rw [List.map_cons, List.lookup_cons]
    by_cases hi : i = changed
    · subst hi
      rw [if_pos rfl, List.lookup_cons, ih]
      by_cases hid : id = i
      · simp [hid]
      · simp [hid, beq_eq_false_iff_ne.2 hid]
    · rw [if_neg hi, List.lookup_cons, ih]
      by_cases hid : id = i
      · simp [hid, hi]
      · simp [beq_eq_false_iff_ne.2 hid]

/-- A binding that was made is new in its scope, and all other scopes stay. -/
theorem get?_define {name : String} {v : Value} (h : c.define? scope name v = some c') :
    ∃ s, c.get? scope = some s ∧ s.symbols.lookup name = none ∧
      ∀ id, c'.get? id = if id = scope then some (s.bind name v) else c.get? id := by
  unfold define? at h
  cases hs : c.get? scope with
  | none =>
    rw [hs] at h
    cases h
  | some s =>
    rw [hs] at h
    by_cases hb : s.binds name = true
    · simp [hb] at h
    · simp only [hb, Bool.false_eq_true, ↓reduceIte, Option.some.injEq] at h
      subst h
      refine ⟨s, rfl, Option.not_isSome_iff_eq_none.1 hb, fun id => ?_⟩
      rw [get?_update]
      by_cases hid : id = scope
      · simp [hid, hs]
      · simp [hid]

theorem opened_define {name : String} {v : Value} (h : c.define? scope name v = some c') :
    c'.opened = c.opened := by
  unfold define? at h
  split at h
  · cases h
  · split at h <;> cases h
    rfl

/-! ## Numbers -/

/-- Every live scope has a number that was given out. This holds before any scope was opened, and
no edit of a builder ends it (`Builder.Edits.numbered`). -/
def Numbered (c : ScopeChain) : Prop :=
  ∀ id, (c.get? id).isSome = true → id < c.opened

theorem Numbered.get?_opened (h : c.Numbered) : c.get? c.opened = none := by
  by_contra hne
  exact Nat.lt_irrefl _ (h _ (Option.isSome_iff_ne_none.2 hne))

theorem numbered_empty : ScopeChain.Numbered {} := by
  intro id h
  cases h

theorem Numbered.push (h : c.Numbered) (parent : Option ScopeId) :
    (c.push parent).2.Numbered := by
  intro id hid
  rw [get?_push] at hid
  by_cases e : id = c.opened
  · rw [e]
    exact Nat.lt_succ_self c.opened
  · rw [if_neg e] at hid
    exact Nat.lt_succ_of_lt (h id hid)

theorem Numbered.pop (h : c.Numbered) (closed : ScopeId) : (c.pop closed).Numbered := by
  intro id hid
  rw [get?_pop] at hid
  split at hid
  · cases hid
  · exact h id hid

theorem Numbered.define (h : c.Numbered) {name : String} {v : Value}
    (hd : c.define? scope name v = some c') : c'.Numbered := by
  obtain ⟨s, hs, -, hget⟩ := get?_define hd
  intro id hid
  rw [opened_define hd]
  rw [hget] at hid
  split at hid
  · rename_i e
    exact h id (by rw [e, hs]; rfl)
  · exact h id hid

/-! ## Frames -/

/-- The live scopes are the same, and only the given one may bind more names than before. -/
structure Widens (scope : ScopeId) (c c' : ScopeChain) : Prop where
  parents : ∀ id, (c'.get? id).map (·.parent) = (c.get? id).map (·.parent)
  others : ∀ id, id ≠ scope → c'.get? id = c.get? id
  bindings : ∀ s, c.get? scope = some s → ∃ s', c'.get? scope = some s' ∧
    ∀ name v, s.symbols.lookup name = some v → s'.symbols.lookup name = some v

namespace Widens

theorem refl (scope : ScopeId) (c : ScopeChain) : Widens scope c c :=
  ⟨fun _ => rfl, fun _ _ => rfl, fun s hs => ⟨s, hs, fun _ _ h => h⟩⟩

theorem trans (h : Widens scope c c') (h' : Widens scope c' c'') : Widens scope c c'' := by
  refine ⟨fun id => (h'.parents id).trans (h.parents id),
    fun id hid => (h'.others id hid).trans (h.others id hid), fun s hs => ?_⟩
  obtain ⟨s', hs', hb⟩ := h.bindings s hs
  obtain ⟨s'', hs'', hb'⟩ := h'.bindings s' hs'
  exact ⟨s'', hs'', fun name v hv => hb' name v (hb name v hv)⟩

theorem of_get?_eq (h : ∀ id, c'.get? id = c.get? id) : Widens scope c c' :=
  ⟨fun id => by rw [h id], fun id _ => h id, fun s hs => ⟨s, (h scope).trans hs, fun _ _ h => h⟩⟩

theorem define {name : String} {v : Value} (h : c.define? scope name v = some c') :
    Widens scope c c' := by
  obtain ⟨s, hs, hfree, hget⟩ := get?_define h
  refine ⟨fun id => ?_, fun id hid => ?_, fun t ht => ?_⟩
  · rw [hget]
    by_cases hid : id = scope
    · rw [if_pos hid, hid, hs]
      rfl
    · rw [if_neg hid]
  · rw [hget, if_neg hid]
  · cases hs.symm.trans ht
    refine ⟨s.bind name v, by rw [hget, if_pos rfl], fun other w hw => ?_⟩
    have hne : (other == name) = false := by
      refine beq_eq_false_iff_ne.2 ?_
      rintro rfl
      rw [hfree] at hw
      cases hw
    rw [Scope.bind, List.lookup_cons, hne]
    exact hw

/-- What was done in a new scope is gone with it. -/
theorem close {parent : Option ScopeId} (hc : c.Numbered)
    (h : Widens c.opened (c.push parent).2 c') : Widens scope c (c'.pop c.opened) := by
  refine of_get?_eq fun id => ?_
  rw [get?_pop]
  by_cases hid : id = c.opened
  · rw [if_pos hid, hid, hc.get?_opened]
  · rw [if_neg hid, h.others id hid, get?_push, if_neg hid]

end Widens

end ScopeChain

theorem Builder.Edits.numbered {b b' : Builder} (h : b.Edits b') (hb : b.scopes.Numbered) :
    b'.scopes.Numbered := by
  induction h with
  | refl => exact hb
  | tail _ edit ih =>
    cases edit with
    | addFunction | addGlobal | function | move => exact ih
    | pushScope parent => exact ih.push parent
    | popScope id => exact ih.pop id
    | define defines => exact ih.define defines

end SlotIR
