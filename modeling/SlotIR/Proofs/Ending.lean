/-!
# How stateful computations end

A computation with a state and errors ends in a value or in an error, and in a state either way.
`Ends` says what holds at both kinds of ends; its rule for sequencing lets each step of a
computation be described once.
-/

namespace SlotIR

variable {ε σ α β : Type}

instance decidableEqResult [DecidableEq ε] [DecidableEq σ] [DecidableEq α] :
    DecidableEq (EStateM.Result ε σ α)
  | .ok a s, .ok a' s' => decidable_of_iff (a = a' ∧ s = s') (by simp)
  | .error e s, .error e' s' => decidable_of_iff (e = e' ∧ s = s') (by simp)
  | .ok .., .error .. => isFalse (by simp)
  | .error .., .ok .. => isFalse (by simp)

/-- A value satisfies `P` together with the state it came with, an error `E`. -/
def Ends (r : EStateM.Result ε σ α) (P : α → σ → Prop) (E : ε → σ → Prop) : Prop :=
  match r with
  | .ok a s => P a s
  | .error e s => E e s

/-- The state at the end of a computation. -/
def finalState : EStateM.Result ε σ α → σ
  | .ok _ s => s
  | .error _ s => s

@[simp] theorem finalState_ok (a : α) (s : σ) :
    finalState (.ok a s : EStateM.Result ε σ α) = s := rfl

@[simp] theorem finalState_error (e : ε) (s : σ) :
    finalState (.error e s : EStateM.Result ε σ α) = s := rfl

/-! ## Sequencing -/

section bind

variable {x : EStateM ε σ α} {f : α → EStateM ε σ β} {s : σ}

theorem bind_of_ok {a : α} {s' : σ} (h : x s = .ok a s') : (x >>= f) s = f a s' := by
  show EStateM.bind x f s = _
  rw [EStateM.bind, h]

theorem bind_of_error {e : ε} {s' : σ} (h : x s = .error e s') : (x >>= f) s = .error e s' := by
  show EStateM.bind x f s = _
  rw [EStateM.bind, h]

end bind

@[simp] theorem pure_run (a : α) (s : σ) : (pure a : EStateM ε σ α) s = .ok a s := rfl

@[simp] theorem throw_run (e : ε) (s : σ) : (throw e : EStateM ε σ α) s = .error e s := rfl

@[simp] theorem get_run (s : σ) : (get : EStateM ε σ σ) s = .ok s s := rfl

@[simp] theorem set_run (s s' : σ) : (set s' : EStateM ε σ PUnit) s = .ok ⟨⟩ s' := rfl

@[simp] theorem modify_run (g : σ → σ) (s : σ) :
    (modify g : EStateM ε σ PUnit) s = .ok ⟨⟩ (g s) := rfl

@[simp] theorem modifyGet_run (g : σ → α × σ) (s : σ) :
    (modifyGet g : EStateM ε σ α) s = .ok (g s).1 (g s).2 := rfl

namespace Ends

variable {P Q : α → σ → Prop} {E F : ε → σ → Prop} {r : EStateM.Result ε σ α}

theorem mono (h : Ends r P E) (hP : ∀ a s, P a s → Q a s) (hE : ∀ e s, E e s → F e s) :
    Ends r Q F := by
  cases r with
  | ok a s => exact hP a s h
  | error e s => exact hE e s h

/-- What holds at every value of the first part is what the second part starts from. -/
theorem bind {x : EStateM ε σ α} {f : α → EStateM ε σ β} {s : σ} {R : β → σ → Prop}
    (hx : Ends (x s) P E) (hf : ∀ a s', P a s' → Ends (f a s') R E) :
    Ends ((x >>= f) s) R E := by
  cases h : x s with
  | ok a s' =>
    rw [bind_of_ok h]
    rw [h] at hx
    exact hf a s' hx
  | error e s' =>
    rw [bind_of_error h]
    rw [h] at hx
    exact hx

theorem bind_eq {x : EStateM ε σ α} {f : α → EStateM ε σ β} {s s' : σ} {a : α}
    {R : β → σ → Prop} (h : x s = .ok a s') (hf : Ends (f a s') R E) : Ends ((x >>= f) s) R E := by
  rw [bind_of_ok h]
  exact hf

theorem of_ok {a : α} {s : σ} (h : Ends r P E) (hr : r = .ok a s) : P a s := by
  rw [hr] at h
  exact h

theorem of_error {e : ε} {s : σ} (h : Ends r P E) (hr : r = .error e s) : E e s := by
  rw [hr] at h
  exact h

end Ends

/-! ## States of a kind -/

/-- A computation that ends in a value only in states that `emb` gives. -/
def EndsIn {τ : Type} (emb : τ → σ) (r : EStateM.Result ε σ α) (P : α → τ → Prop)
    (E : ε → σ → Prop) : Prop :=
  Ends r (fun a s => ∃ t, s = emb t ∧ P a t) E

namespace EndsIn

variable {τ : Type} {emb : τ → σ} {P Q : α → τ → Prop} {E : ε → σ → Prop}

theorem mono {r : EStateM.Result ε σ α} (h : EndsIn emb r P E) (hpq : ∀ a t, P a t → Q a t) :
    EndsIn emb r Q E := by
  refine Ends.mono h ?_ fun _ _ h => h
  rintro a s ⟨t, rfl, hp⟩
  exact ⟨t, rfl, hpq a t hp⟩

theorem of_eq {x : EStateM ε σ α} {s : σ} {a : α} {t : τ} (h : x s = .ok a (emb t)) (hp : P a t) :
    EndsIn emb (x s) P E := by
  rw [h]
  exact ⟨t, rfl, hp⟩

variable {x : EStateM ε σ α} {f : α → EStateM ε σ β} {s : σ} {R : β → τ → Prop}

theorem bind (hx : EndsIn emb (x s) P E) (hf : ∀ a t, P a t → EndsIn emb (f a (emb t)) R E) :
    EndsIn emb ((x >>= f) s) R E := by
  refine Ends.bind hx ?_
  rintro a s' ⟨t, rfl, h⟩
  exact hf a t h

/-- What follows a computation that never ends in a value does not matter. -/
theorem stop (hx : EndsIn emb (x s) (fun _ _ => False) E) : EndsIn emb ((x >>= f) s) R E :=
  hx.bind fun _ _ h => h.elim

theorem bind_eq {a : α} {s' : σ} (h : x s = .ok a s') (hf : EndsIn emb (f a s') R E) :
    EndsIn emb ((x >>= f) s) R E :=
  Ends.bind_eq h hf

end EndsIn

end SlotIR
