import Mathlib.Data.Nat.Digits.Defs
import SlotIR.Literal
import SlotIR.Proofs.ByteText
import SlotIR.Proofs.Nearest

/-!
# Decimal numerals

A numeral is an optional sign, digits with at most one point among them, and an optional exponent. It
is given by its parts (`Numeral`), with its spelling and its value. The lengths that a float is measured
with at the beginning of a text are the lengths of a numeral there, and no numeral there is longer
(`length_le_floatLength`, `exists_numeral`).
-/

namespace SlotIR.Literal

open Text (Ascii)

/-! ## The grammar -/

inductive Sign where
  | plus
  | minus
deriving DecidableEq, Repr

def Sign.char : Sign → Char
  | .plus => '+'
  | .minus => '-'

def signText (sign : Option Sign) : List Char :=
  (sign.map Sign.char).toList

def AllDigits (cs : List Char) : Prop :=
  ∀ c ∈ cs, c.isDigit = true

/-- The number that a row of digits denotes. -/
def number (digits : List Char) : ℕ :=
  Nat.ofDigits 10 (digits.reverse.map fun c => c.toNat - '0'.toNat)

/-- A mark, an optional sign and at least one digit. -/
structure ExponentPart where
  mark : Char
  sign : Option Sign
  digits : List Char
  is_mark : mark = 'e' ∨ mark = 'E'
  all_digits : AllDigits digits
  some_digit : digits ≠ []

def ExponentPart.spell (e : ExponentPart) : List Char :=
  e.mark :: (signText e.sign ++ e.digits)

def ExponentPart.value (e : ExponentPart) : ℤ :=
  if e.sign = some .minus then -(number e.digits : ℤ) else number e.digits

/-- Digits, and a point with digits if there is one. -/
def mantissaText (whole : List Char) : Option (List Char) → List Char
  | none => whole
  | some fraction => whole ++ '.' :: fraction

def exponentText (exponent : Option ExponentPart) : List Char :=
  (exponent.map ExponentPart.spell).getD []

/-- A decimal numeral: `[+-]?(D+(.D*)?|.D+)([eE][+-]?D+)?`, where `D` is a digit. -/
structure Numeral where
  sign : Option Sign
  whole : List Char
  /-- The digits after the point, if there is a point. -/
  fraction : Option (List Char)
  exponent : Option ExponentPart
  whole_digits : AllDigits whole
  fraction_digits : AllDigits (fraction.getD [])
  some_digit : whole ++ fraction.getD [] ≠ []

namespace Numeral

variable (n : Numeral)

def spell : List Char :=
  signText n.sign ++ (mantissaText n.whole n.fraction ++ exponentText n.exponent)

def negative : Bool :=
  n.sign = some .minus

/-- The digits with their point. -/
def mantissa : ℚ :=
  number (n.whole ++ n.fraction.getD []) / 10 ^ (n.fraction.getD []).length

/-- The power of ten that the mantissa is multiplied by. -/
def power : ℤ :=
  (n.exponent.map ExponentPart.value).getD 0

/-- The value without the sign. -/
def value : ℚ :=
  n.mantissa * 10 ^ n.power

end Numeral

/-! ## Digits -/

section digits

variable {ds t : List Char} {c : Char}

theorem digitsValue_concat (ds : List Char) (c : Char) :
    digitsValue (ds ++ [c]) = 10 * digitsValue ds + (c.toNat - '0'.toNat) := by
  simp [digitsValue]

theorem digitsValue_eq_number (ds : List Char) : digitsValue ds = number ds := by
  induction ds using List.reverseRecOn with
  | nil => rfl
  | append_singleton ds c ih =>
    rw [digitsValue_concat, ih, number, number, List.reverse_concat, List.map_cons,
      Nat.ofDigits_cons, Nat.add_comm]

theorem toNat_lt_of_isDigit (h : c.isDigit = true) : c.toNat < 128 := by
  simp only [Char.isDigit, Bool.and_eq_true, decide_eq_true_eq, UInt32.le_iff_toNat_le] at h
  have hle : c.toNat ≤ 57 := h.2
  omega

theorem AllDigits.ascii (h : AllDigits ds) : Ascii ds :=
  fun c hc => toNat_lt_of_isDigit (h c hc)

/-- No digit comes first. -/
def Stops (t : List Char) : Prop :=
  ∀ c ∈ t.head?, c.isDigit = false

theorem digitsLength_append (h : AllDigits ds) :
    digitsLength (ds ++ t) = ds.length + digitsLength t := by
  rw [digitsLength, List.takeWhile_append_of_pos h, List.length_append]
  rfl

theorem digitsLength_of_stops (h : Stops t) : digitsLength t = 0 := by
  cases t with
  | nil => rfl
  | cons c t =>
    rw [digitsLength, List.takeWhile_cons_of_neg (by simp [h c rfl])]
    rfl

theorem splitDigits_append (h : AllDigits ds) (ht : Stops t) : splitDigits (ds ++ t) = (ds, t) := by
  have hnone : t.takeWhile Char.isDigit = [] := List.length_eq_zero_iff.1 (digitsLength_of_stops ht)
  have hall : t.dropWhile Char.isDigit = t := by
    have hsplit := List.takeWhile_append_dropWhile (p := Char.isDigit) (l := t)
    rwa [hnone] at hsplit
  rw [splitDigits, List.takeWhile_append_of_pos h, List.dropWhile_append_of_pos h, hnone, hall,
    List.append_nil]

/-- A row of digits is as long as can be. -/
theorem exists_digits (t : List Char) : ∃ ds t', AllDigits ds ∧ t = ds ++ t' ∧ Stops t' ∧
    digitsLength t = ds.length := by
  refine ⟨t.takeWhile Char.isDigit, t.dropWhile Char.isDigit, List.all_eq_true.1 List.all_takeWhile,
    List.takeWhile_append_dropWhile.symm, fun c hc => ?_, rfl⟩
  have hne : t.dropWhile Char.isDigit ≠ [] := fun e => by simp [e] at hc
  have := List.head_dropWhile_not Char.isDigit hne
  rw [List.head?_eq_some_head hne] at hc
  simpa [← Option.some.inj hc] using this

end digits

/-! ## Signs -/

section signs

variable {t : List Char}

/-- No sign comes first. -/
def Unsigned (t : List Char) : Prop :=
  ∀ sign : Sign, t.head? ≠ some sign.char

theorem unsigned_of_isDigit {c : Char} (h : c.isDigit = true) (t : List Char) :
    Unsigned (c :: t) := by
  rintro sign e
  cases Option.some.inj e
  cases sign <;> cases h

theorem signLength_append (h : Unsigned t) (sign : Option Sign) :
    signLength (signText sign ++ t) = (signText sign).length := by
  rcases sign with _ | _ | _
  · show signLength t = 0
    unfold signLength
    split
    · exact absurd rfl (h .minus)
    · exact absurd rfl (h .plus)
    · rfl
  · rfl
  · rfl

theorem splitSign_append (sign : Option Sign) (h : sign = none → Unsigned t) :
    splitSign (signText sign ++ t) = (decide (sign = some .minus), t) := by
  rcases sign with _ | _ | _
  · show splitSign t = (false, t)
    unfold splitSign
    split
    · exact absurd rfl (h rfl .minus)
    · exact absurd rfl (h rfl .plus)
    · rfl
  · rfl
  · rfl

theorem exists_sign (t : List Char) : ∃ sign t', t = signText sign ++ t' ∧
    signLength t = (signText sign).length ∧ (sign = none → Unsigned t') := by
  unfold signLength
  split
  · exact ⟨some .minus, _, rfl, rfl, fun e => by cases e⟩
  · exact ⟨some .plus, _, rfl, rfl, fun e => by cases e⟩
  · rename_i hminus hplus
    refine ⟨none, t, rfl, rfl, fun _ sign e => ?_⟩
    obtain ⟨t', rfl⟩ : ∃ t', t = sign.char :: t' := by
      cases t with
      | nil => cases e
      | cons c t => exact ⟨t, by rw [Option.some.inj e]⟩
    cases sign with
    | plus => exact hplus t' rfl
    | minus => exact hminus t' rfl

theorem signText_ascii (sign : Option Sign) : Ascii (signText sign) := by
  rcases sign with _ | _ | _ <;> simp [signText, Ascii, Sign.char]

end signs

/-! ## Lengths -/

section lengths

variable {t : List Char}

theorem isExponentMark_iff {c : Char} : isExponentMark c = true ↔ c = 'e' ∨ c = 'E' := by
  simp [isExponentMark]

theorem unsigned_digits {ds : List Char} (h : AllDigits ds) (hne : ds ≠ []) (t : List Char) :
    Unsigned (ds ++ t) := by
  obtain ⟨d, ds, rfl⟩ := List.exists_cons_of_ne_nil hne
  exact unsigned_of_isDigit (h d List.mem_cons_self) _

theorem exponentLength_spell (e : ExponentPart) (t : List Char) :
    exponentLength (e.spell ++ t) = e.spell.length + digitsLength t := by
  have hsign := signLength_append (unsigned_digits e.all_digits e.some_digit t) e.sign
  have hpos := List.length_pos_iff.2 e.some_digit
  rw [ExponentPart.spell, List.cons_append, List.append_assoc, exponentLength,
    if_pos (isExponentMark_iff.2 e.is_mark)]
  dsimp only
  rw [hsign, List.drop_left, digitsLength_append e.all_digits, if_pos (by omega),
    List.length_cons, List.length_append]
  omega

/-- An exponent begins with its mark. -/
theorem ExponentPart.spell_stops (e : ExponentPart) (t : List Char) :
    Stops (e.spell ++ t) ∧ (e.spell ++ t).head? ≠ some '.' := by
  rcases e.is_mark with h | h <;> simp [ExponentPart.spell, Stops, h]

/-- What is measured as an exponent is one. -/
theorem exists_exponent (t : List Char) : ∃ exponent t', t = exponentText exponent ++ t' ∧
    exponentLength t = (exponentText exponent).length := by
  unfold exponentLength
  split
  · exact ⟨none, [], rfl, rfl⟩
  · rename_i mark t
    split
    · rename_i hmark
      obtain ⟨sign, t₁, rfl, hsign, -⟩ := exists_sign t
      obtain ⟨ds, t₂, hds, rfl, -, hlength⟩ := exists_digits t₁
      dsimp only
      rw [hsign, List.drop_left, hlength]
      split
      · rename_i hpos
        let e : ExponentPart := ⟨mark, sign, ds, isExponentMark_iff.1 hmark, hds,
          List.length_pos_iff.1 hpos⟩
        refine ⟨some e, t₂, ?_, ?_⟩
        · simp [exponentText, e, ExponentPart.spell]
        · simp only [exponentText, e, ExponentPart.spell, Option.map_some, Option.getD_some,
            List.length_cons, List.length_append]
          omega
      · exact ⟨none, _, rfl, rfl⟩
    · exact ⟨none, _, rfl, rfl⟩

theorem mantissaLength_point {whole : List Char} (hw : AllDigits whole) (t : List Char) :
    mantissaLength (whole ++ '.' :: t) =
      (whole.length + 1 + digitsLength t, whole.length + digitsLength t) := by
  have hlength : digitsLength (whole ++ '.' :: t) = whole.length := by
    rw [digitsLength_append hw, digitsLength_of_stops (by simp [Stops]), Nat.add_zero]
  rw [mantissaLength]
  dsimp only
  rw [hlength, List.drop_left]
  rfl

/-- The length and the number of digits of a mantissa that nothing can prolong. -/
theorem mantissaLength_append {whole : List Char} {fraction : Option (List Char)}
    (hw : AllDigits whole) (hf : AllDigits (fraction.getD [])) (ht : Stops t)
    (hpoint : fraction = none → t.head? ≠ some '.') :
    mantissaLength (mantissaText whole fraction ++ t) =
      ((mantissaText whole fraction).length, (whole ++ fraction.getD []).length) := by
  cases fraction with
  | none =>
    rw [mantissaText, mantissaLength]
    dsimp only
    rw [digitsLength_append hw, digitsLength_of_stops ht, Nat.add_zero, List.drop_left]
    split
    · exact absurd rfl (hpoint rfl)
    · simp
  | some fraction =>
    rw [Option.getD_some] at hf
    rw [mantissaText, List.append_assoc, List.cons_append, mantissaLength_point hw,
      digitsLength_append hf, digitsLength_of_stops ht]
    simp only [Nat.add_zero, Option.getD_some, List.length_append, List.length_cons,
      Prod.mk.injEq, and_true]
    omega

/-- Whatever follows a mantissa, no less than the mantissa is measured. -/
theorem le_mantissaLength {whole : List Char} {fraction : Option (List Char)}
    (hw : AllDigits whole) (hf : AllDigits (fraction.getD [])) (t : List Char) :
    (mantissaText whole fraction).length ≤ (mantissaLength (mantissaText whole fraction ++ t)).1 ∧
      (whole ++ fraction.getD []).length ≤
        (mantissaLength (mantissaText whole fraction ++ t)).2 := by
  cases fraction with
  | none =>
    have hle : whole.length ≤ digitsLength (whole ++ t) := by
      rw [digitsLength_append hw]
      omega
    rw [mantissaText, mantissaLength]
    dsimp only
    split <;> simp only [Option.getD_none, List.append_nil] <;> omega
  | some fraction =>
    rw [Option.getD_some] at hf
    rw [mantissaText, List.append_assoc, List.cons_append, mantissaLength_point hw,
      digitsLength_append hf, Option.getD_some, List.length_append, List.length_append,
      List.length_cons]
    omega

/-- What is measured as a mantissa is one. -/
theorem exists_mantissa (t : List Char) : ∃ whole fraction t', AllDigits whole ∧
    AllDigits (fraction.getD []) ∧ t = mantissaText whole fraction ++ t' ∧
    mantissaLength t =
      ((mantissaText whole fraction).length, (whole ++ fraction.getD []).length) := by
  obtain ⟨whole, t₁, hw, rfl, hstops, -⟩ := exists_digits t
  have hnone : AllDigits (Option.getD none []) := by simp [AllDigits]
  by_cases hpoint : t₁.head? = some '.'
  · obtain ⟨t₂, rfl⟩ := List.head?_eq_some_iff.1 hpoint
    obtain ⟨fraction, t₃, hf, rfl, hstops', -⟩ := exists_digits t₂
    have hlength : mantissaLength (mantissaText whole (some fraction) ++ t₃) = _ :=
      mantissaLength_append hw hf hstops' (by simp)
    rw [mantissaText, List.append_assoc] at hlength
    exact ⟨whole, some fraction, t₃, hw, hf, by simp [mantissaText], hlength⟩
  · exact ⟨whole, none, t₁, hw, hnone, rfl,
      mantissaLength_append hw hnone hstops fun _ => hpoint⟩

end lengths

/-! ## Numerals at the beginning of a text -/

section numeral

variable (n : Numeral) (t : List Char)

/-- A mantissa begins with a digit or a point. -/
theorem Numeral.unsigned : Unsigned (mantissaText n.whole n.fraction ++ t) := by
  by_cases hw : n.whole = []
  · have h := n.some_digit
    cases hf : n.fraction with
    | none => simp [hw, hf] at h
    | some f =>
      intro sign
      cases sign <;> simp [mantissaText, hw, Sign.char]
  · have hsplit : ∃ t', mantissaText n.whole n.fraction = n.whole ++ t' := by
      cases n.fraction with
      | none => exact ⟨[], (List.append_nil _).symm⟩
      | some f => exact ⟨'.' :: f, rfl⟩
    obtain ⟨t', ht'⟩ := hsplit
    rw [ht', List.append_assoc]
    exact unsigned_digits n.whole_digits hw _

theorem signLength_spell : signLength (n.spell ++ t) = (signText n.sign).length := by
  rw [Numeral.spell, List.append_assoc, List.append_assoc]
  exact signLength_append (n.unsigned _) n.sign

theorem drop_signLength_spell : (n.spell ++ t).drop (signLength (n.spell ++ t)) =
    mantissaText n.whole n.fraction ++ (exponentText n.exponent ++ t) := by
  rw [signLength_spell, Numeral.spell, List.append_assoc, List.append_assoc, List.drop_left]

theorem mantissaDigits_spell : mantissaDigits (n.spell ++ t) ≠ 0 := by
  rw [mantissaDigits, drop_signLength_spell]
  have hle := (le_mantissaLength n.whole_digits n.fraction_digits (exponentText n.exponent ++ t)).2
  have hpos := List.length_pos_iff.2 n.some_digit
  omega

/-- No numeral at the beginning of a text is longer than what is measured there. -/
theorem length_le_floatLength : n.spell.length ≤ floatLength (n.spell ++ t) := by
  rw [floatLength]
  rw [drop_signLength_spell, signLength_spell]
  have hle := (le_mantissaLength n.whole_digits n.fraction_digits (exponentText n.exponent ++ t)).1
  cases he : n.exponent with
  | none =>
    rw [he] at hle
    simp only [Numeral.spell, he, exponentText, Option.map_none, Option.getD_none, List.append_nil,
      List.length_append] at hle ⊢
    omega
  | some e =>
    -- the mark ends the mantissa, so the exponent is measured from there
    have hmark := e.spell_stops t
    have hdrop : (n.spell ++ t).drop ((signText n.sign).length +
        (mantissaText n.whole n.fraction).length) = e.spell ++ t := by
      rw [Numeral.spell, he, List.append_assoc, List.append_assoc, ← List.drop_drop, List.drop_left,
        List.drop_left]
      rfl
    have hmantissa := mantissaLength_append n.whole_digits n.fraction_digits hmark.1 fun _ => hmark.2
    rw [exponentText, Option.map_some, Option.getD_some, hmantissa]
    dsimp only
    rw [hdrop, exponentLength_spell, Numeral.spell, he, List.length_append, List.length_append]
    show _ + (_ + e.spell.length) ≤ _
    omega

end numeral

/-- What is measured as a float with digits is a numeral. -/
theorem exists_numeral {t : List Char} (h : mantissaDigits t ≠ 0) : ∃ (n : Numeral) (t' : List Char),
    t = n.spell ++ t' ∧ floatLength t = n.spell.length := by
  obtain ⟨sign, t₁, rfl, hsign, -⟩ := exists_sign t
  obtain ⟨whole, fraction, t₂, hw, hf, rfl, hmantissa⟩ := exists_mantissa t₁
  obtain ⟨exponent, t₃, rfl, hexponent⟩ := exists_exponent t₂
  rw [mantissaDigits, hsign, List.drop_left, hmantissa] at h
  refine ⟨⟨sign, whole, fraction, exponent, hw, hf, List.ne_nil_of_length_pos (by omega)⟩, t₃, ?_, ?_⟩
  · simp only [Numeral.spell, List.append_assoc]
  · rw [floatLength]
    rw [hsign, List.drop_left, hmantissa, ← List.drop_drop, List.drop_left, List.drop_left,
      hexponent]
    simp only [Numeral.spell, List.length_append]
    omega

end SlotIR.Literal
