import Mathlib.Data.List.Induction
import SlotIR.Proofs.Typing

/-!
# The text of types

The text of a function type is the text of its result and, in parentheses, those of its parameters.
Nothing marks where either begins, so a text is read from its end: the last character tells types of
different kinds apart, and the parameters of a function type come off one by one, the last one first,
until the parenthesis is reached. In this way a type is recognized at the end of any text
(`PointerFree.recognized`), as long as no addresses occur in it; those all have the same text.
-/

namespace SlotIR.Ty

/-- No address occurs in a type, at any depth. -/
inductive PointerFree : Ty → Prop where
  | void : PointerFree .void
  | scalar {t : Ty} (h : t.isScalar = true) : PointerFree t
  | fn {params : List Ty} {ret : Ty} (hparams : ∀ p ∈ params, PointerFree p)
      (hret : PointerFree ret) : PointerFree (.fn params ret)

/-! ## The end of a text -/

/-- The last character of the text of a type. -/
def lastChar : Ty → Char
  | void => 'd'
  | bool => '1'
  | char => '8'
  | int => '2'
  | float => 't'
  | ptr _ => 'r'
  | fn .. => ')'

/-- The texts of parameters, as they stand between parentheses. -/
def paramsText (params : List Ty) : List Char :=
  (", ".intercalate (texts params)).toList

theorem text_fn (params : List Ty) (ret : Ty) :
    (fn params ret).text.toList = ret.text.toList ++ [' '] ++ '(' :: paramsText params ++ [')'] := by
  rw [text, String.toList_append, String.toList_append, String.toList_append, paramsText]
  simp

theorem text_getLast? (t : Ty) : t.text.toList.getLast? = some t.lastChar := by
  cases t with
  | fn params ret =>
    rw [text_fn, List.getLast?_concat]
    rfl
  | _ => simp [text, lastChar]

theorem text_ne_nil (t : Ty) : t.text.toList ≠ [] := by
  intro h
  have hlast := t.text_getLast?
  rw [h] at hlast
  cases hlast

variable {a b : Ty} {x y : List Char}

theorem getLast?_append_text (x : List Char) (t : Ty) :
    (x ++ t.text.toList).getLast? = some t.lastChar := by
  rw [List.getLast?_append_of_ne_nil _ t.text_ne_nil, text_getLast?]

theorem lastChar_eq (h : x ++ a.text.toList = y ++ b.text.toList) : a.lastChar = b.lastChar := by
  have hlast := congrArg List.getLast? h
  rwa [getLast?_append_text, getLast?_append_text, Option.some_inj] at hlast

/-! ## Parameters -/

/-- What stands between the opening parenthesis and a parameter with others before it. -/
def paramsLead (params : List Ty) : List Char :=
  if params = [] then [] else paramsText params ++ [',', ' ']

theorem texts_append (ps qs : List Ty) : texts (ps ++ qs) = texts ps ++ texts qs := by
  induction ps with
  | nil => rfl
  | cons p ps ih => rw [List.cons_append, texts, texts, ih, List.cons_append]

theorem paramsText_concat (params : List Ty) (p : Ty) :
    paramsText (params ++ [p]) = paramsLead params ++ p.text.toList := by
  unfold paramsLead paramsText
  rw [texts_append]
  cases params with
  | nil => simp [texts]
  | cons q params =>
    rw [String.intercalate_append_of_ne_nil (by simp [texts]) (by simp [texts])]
    simp [texts]

/-- A parenthesis and not a comma stands in front of the first parameter. -/
theorem getLast?_paramsLead (x : List Char) (params : List Ty) :
    (x ++ '(' :: paramsLead params).getLast? = some (if params = [] then '(' else ' ') := by
  unfold paramsLead
  split
  · exact List.getLast?_concat ..
  · rw [← List.cons_append, ← List.append_assoc, List.getLast?_append_of_ne_nil _ (by simp)]
    rfl

/-- Reading from the end, the text of the type is recognized wherever it stands. -/
def Recognized (a : Ty) : Prop :=
  ∀ ⦃b : Ty⦄, b.PointerFree → ∀ ⦃x y : List Char⦄,
    x ++ a.text.toList = y ++ b.text.toList → x = y ∧ a = b

/-- The list of parameters is not empty where a text ends with a parameter. -/
theorem not_open_paren {params : List Ty} (p : Ty)
    (h : x ++ '(' :: paramsText [] = y ++ '(' :: paramsText (params ++ [p])) : False := by
  have hlast := congrArg List.getLast? h
  rw [paramsText_concat, ← List.cons_append, ← List.append_assoc, getLast?_append_text] at hlast
  rw [show paramsText [] = [] from rfl, List.getLast?_concat, Option.some_inj] at hlast
  cases p <;> simp [lastChar] at hlast

/-- Parameters come off their list one by one. -/
theorem paramsText_suffix {ps qs : List Ty} (hps : ∀ p ∈ ps, p.Recognized)
    (hqs : ∀ q ∈ qs, q.PointerFree)
    (h : x ++ '(' :: paramsText ps = y ++ '(' :: paramsText qs) : x = y ∧ ps = qs := by
  induction ps using List.reverseRecOn generalizing qs with
  | nil =>
    rcases List.eq_nil_or_concat qs with rfl | ⟨qs, q, rfl⟩
    · exact ⟨List.append_cancel_right h, rfl⟩
    · exact (not_open_paren q (by simpa using h)).elim
  | append_singleton ps p ih =>
    rcases List.eq_nil_or_concat qs with rfl | ⟨qs, q, rfl⟩
    · exact (not_open_paren p h.symm).elim
    rw [List.concat_eq_append] at h hqs ⊢
    obtain ⟨hinit, hp⟩ := List.forall_mem_append.1 hps
    obtain ⟨hinit', hq⟩ := List.forall_mem_append.1 hqs
    rw [paramsText_concat, paramsText_concat, ← List.cons_append, ← List.cons_append,
      ← List.append_assoc, ← List.append_assoc] at h
    obtain ⟨hlead, rfl⟩ := hp p (List.mem_singleton_self p) (hq q (List.mem_singleton_self q)) h
    -- both lists have a parameter before this one, or none has
    have hfirst := congrArg List.getLast? hlead
    rw [getLast?_paramsLead, getLast?_paramsLead, Option.some_inj] at hfirst
    by_cases hnil : ps = []
    · have hnil' : qs = [] := by
        by_contra hne
        simp [hnil, hne] at hfirst
      subst hnil hnil'
      exact ⟨List.append_cancel_right hlead, rfl⟩
    · have hne : qs ≠ [] := by
        rintro rfl
        simp [hnil] at hfirst
      rw [paramsLead, if_neg hnil, paramsLead, if_neg hne, ← List.cons_append, ← List.cons_append,
        ← List.append_assoc, ← List.append_assoc] at hlead
      obtain ⟨hxy, rfl⟩ := ih hinit hinit' (List.append_cancel_right hlead)
      exact ⟨hxy, rfl⟩

/-! ## Types -/

/-- Types without parameters are told apart by their last characters. -/
theorem eq_of_lastChar (ha : a = .void ∨ a.isScalar = true) (hb : b.PointerFree)
    (h : a.lastChar = b.lastChar) : a = b := by
  have hb' : b = .void ∨ b.isScalar = true := by
    cases hb with
    | void => exact .inl rfl
    | scalar hb => exact .inr hb
    | fn => cases a <;> simp [lastChar, isScalar] at h ha
  cases a <;> cases b <;> simp_all [lastChar, isScalar]

theorem Recognized.fn {params : List Ty} {ret : Ty} (hparams : ∀ p ∈ params, p.Recognized)
    (hret : ret.Recognized) : (Ty.fn params ret).Recognized := by
  intro b hb x y h
  have hlast := lastChar_eq h
  cases hb with
  | void => cases hlast
  | scalar hb => cases b <;> simp [lastChar, isScalar] at hlast hb
  | @fn qs s hqs hs =>
    simp only [text_fn, ← List.append_assoc] at h
    obtain ⟨hresult, rfl⟩ := paramsText_suffix hparams hqs (List.append_cancel_right h)
    obtain ⟨hxy, rfl⟩ := hret hs (List.append_cancel_right hresult)
    exact ⟨hxy, rfl⟩

/-- A type without addresses is recognized by its text, wherever that stands at the end. -/
theorem PointerFree.recognized (ha : a.PointerFree) : a.Recognized := by
  induction ha with
  | fn hparams hret ihparams ihret => exact Recognized.fn ihparams ihret
  | void =>
    intro b hb x y h
    have hab := eq_of_lastChar (.inl rfl) hb (lastChar_eq h)
    subst hab
    exact ⟨List.append_cancel_right h, rfl⟩
  | scalar ha =>
    intro b hb x y h
    have hab := eq_of_lastChar (.inr ha) hb (lastChar_eq h)
    subst hab
    exact ⟨List.append_cancel_right h, rfl⟩

theorem PointerFree.text_inj (ha : a.PointerFree) (hb : b.PointerFree) (h : a.text = b.text) :
    a = b :=
  (ha.recognized hb (congrArg ([] ++ ·.toList) h)).2

end SlotIR.Ty
