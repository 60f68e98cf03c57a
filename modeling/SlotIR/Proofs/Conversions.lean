import Mathlib.Data.Rat.Floor
import SlotIR.Machine.Conversion
import SlotIR.Proofs.EmittedCode
import SlotIR.Proofs.Nearest

/-!
# Conversions keep values

A value that is converted keeps its value as far as the target has it. Floats lose their fraction on
the way to an integer; an integer that the target cannot hold is reduced modulo its size; and an
integer becomes the nearest float. Characters come back from every other type
(`conversions_keep_values`).
-/

namespace SlotIR

/-! ## Truncation -/

/-- The integer part of an exact value, toward zero. -/
def truncation (q : ℚ) : ℤ := if q < 0 then ⌈q⌉ else ⌊q⌋

namespace Binary32

theorem floor_absValue (x : Binary32) : ⌊x.absValue⌋ =
    ((if 0 ≤ x.exponent then x.significand * Nat.pow 2 x.exponent.toNat
      else x.significand / Nat.pow 2 (-x.exponent).toNat : Nat) : ℤ) := by
  unfold absValue
  split
  next h =>
    rw [two_zpow_of_nonneg h, ← Nat.cast_mul, Int.floor_natCast]
  next h =>
    have e : (2 : ℚ) ^ x.exponent = ((Nat.pow 2 (-x.exponent).toNat : Nat) : ℚ)⁻¹ := by
      rw [← two_zpow_of_nonneg (by omega : 0 ≤ -x.exponent), zpow_neg, inv_inv]
    rw [e, ← div_eq_mul_inv, Rat.floor_natCast_div_natCast]
    rfl

/-- The integer part of a finite number is that of its value. -/
theorem truncate_eq (x : Binary32) : x.truncate = truncation x.toRat := by
  have hpos : 0 ≤ x.absValue := by
    rw [absValue_eq]
    exact magnitudeValue_nonneg _
  unfold truncate truncation toRat
  dsimp only
  rw [← floor_absValue]
  cases x.negative with
  | false => simp [not_lt.2 hpos]
  | true =>
    rcases hpos.eq_or_lt with h | h
    · simp [← h]
    · simp [h, Int.ceil_neg]

theorem toIntClamped_of_mem {x : Binary32} {lo hi : ℤ} (hx : x.isFinite = true)
    (hlo : lo ≤ truncation x.toRat) (hhi : truncation x.toRat ≤ hi) :
    x.toIntClamped lo hi = truncation x.toRat := by
  have hlt : x.magnitude.val < infinityMagnitude := of_decide_eq_true hx
  have hnan : x.isNaN = false := by
    unfold isNaN
    exact decide_eq_false (by omega)
  have hinf : x.isInfinite = false := by
    unfold isInfinite
    exact beq_false_of_ne (by omega)
  rw [toIntClamped, hnan, hinf, truncate_eq]
  simp only [Bool.false_eq_true, ↓reduceIte]
  omega

/-- The value of a number that an integer is rounded to, if it is small enough. -/
theorem ofInt_toRat {i : ℤ} (h : i.natAbs ≤ 0x1000000) : (ofInt i).toRat = i := by
  obtain ⟨y, hy, e⟩ := exists_absValue h
  have hsign := (ofInt_nearest i).sign
  have habs := (ofInt_nearest i).exact hy e
  rw [toRat, hsign, habs]
  by_cases hi : i < 0
  · rw [if_pos (decide_eq_true hi), Nat.cast_natAbs, abs_of_neg hi]
    push_cast
    ring
  · rw [if_neg (by simpa using hi), Nat.cast_natAbs, abs_of_nonneg (not_lt.1 hi)]

end Binary32

/-! ## What a conversion should give -/

/-- Whether an integer type has a value for an integer. -/
def Ty.Holds : Ty → ℤ → Prop
  | .char, n => 0 ≤ n ∧ n ≤ 255
  | .int, n => -2147483648 ≤ n ∧ n ≤ 2147483647
  | _, _ => False

namespace Scalar

/-- The integer part of a value, toward zero; infinities and NaN have none. -/
def whole? : Scalar → Option ℤ
  | .float x => if x.isFinite then some (truncation x.toRat) else none
  | v => v.toInt?

/-- `w` is what `v` should become as a value of type `ty`. -/
structure Becomes (v : Scalar) (ty : Ty) (w : Scalar) : Prop where
  type : w.ty = ty
  /-- An integer type keeps what it can hold. -/
  kept : ∀ n, v.whole? = some n → ty.Holds n → w.toInt? = some n
  /-- An integer that it cannot hold is reduced. -/
  reduced : ∀ n, v.toInt? = some n → ty ≠ .float → ¬ ty.Holds n → w.toInt? = some (n % 256)
  /-- A float is the nearest one to an integer. -/
  rounded : ∀ n, v.toInt? = some n → ty = .float →
    ∃ x, w = .float x ∧ x.Nearest (n < 0) (n.natAbs : ℚ) ∧ (n.natAbs ≤ 0x1000000 → x.toRat = n)

variable {v w : Scalar} {ty : Ty} {n : ℤ}

theorem toInt?_ofInt_char (n : ℤ) : (char (UInt8.ofInt n)).toInt? = some (n % 256) := by
  have h : ((UInt8.ofInt n).toNat : ℤ) = n % 256 := by
    simp only [UInt8.ofInt, UInt8.toNat_ofNat']
    omega
  rw [toInt?, h]

theorem toInt?_ofInt_int (h : Ty.int.Holds n) : (int (Int32.ofInt n)).toInt? = some n := by
  rw [toInt?, Int32.toInt_ofInt_of_le (by norm_num; exact h.1) (by have := h.2; omega)]

theorem holds_char (c : UInt8) : Ty.char.Holds c.toNat :=
  ⟨by omega, by have := c.toNat_lt; omega⟩

theorem becomes_float (hv : v.toInt? = some n) : v.Becomes .float (.float (.ofInt n)) where
  type := rfl
  kept _ _ h := h.elim
  reduced _ _ h := absurd rfl h
  rounded k hk _ := by
    rw [hv, Option.some.injEq] at hk
    subst hk
    exact ⟨_, rfl, Binary32.ofInt_nearest n, Binary32.ofInt_toRat⟩

theorem becomes_char (hw : ∀ k, v.whole? = some k → Ty.char.Holds k → n = k)
    (hi : ∀ k, v.toInt? = some k → n = k) : v.Becomes .char (.char (UInt8.ofInt n)) where
  type := rfl
  kept k hk h := by
    rw [toInt?_ofInt_char, hw k hk h, Int.emod_eq_of_lt h.1 (by have := h.2; omega)]
  reduced k hk _ _ := by rw [toInt?_ofInt_char, hi k hk]
  rounded _ _ h := by cases h

theorem becomes_int (hw : ∀ k, v.whole? = some k → Ty.int.Holds k → n = k)
    (hi : ∀ k, v.toInt? = some k → Ty.int.Holds k) : v.Becomes .int (.int (Int32.ofInt n)) where
  type := rfl
  kept k hk h := by
    obtain rfl := hw k hk h
    exact toInt?_ofInt_int h
  reduced k hk _ h := absurd (hi k hk) h
  rounded _ _ h := by cases h

theorem whole?_float {x : Binary32} (h : (float x).whole? = some n) :
    x.isFinite = true ∧ truncation x.toRat = n := by
  cases hx : x.isFinite with
  | true => exact ⟨rfl, by simpa [whole?, hx] using h⟩
  | false => simp [whole?, hx] at h

end Scalar

namespace Lowering

open Scalar

/-- The conversion of lowering gives what a value should become. -/
theorem conversion_becomes {v : Scalar} {ty : Ty} {op : CastOp}
    (h : conversion? v.ty ty = some op) : ∃ w, op.apply v ty = .ok w ∧ v.Becomes ty w := by
  cases v with
  | bool b => cases h
  | char c =>
    cases ty with
    | float => cases h; exact ⟨_, rfl, becomes_float rfl⟩
    | int =>
      cases h
      refine ⟨_, rfl, becomes_int (fun k hk _ => Option.some.inj hk) fun k hk => ?_⟩
      obtain rfl := Option.some.inj hk
      exact ⟨by omega, by have := c.toNat_lt; omega⟩
    | _ => cases h
  | int i =>
    cases ty with
    | float => cases h; exact ⟨_, rfl, becomes_float rfl⟩
    | char =>
      cases h
      exact ⟨_, rfl, becomes_char (fun k hk _ => Option.some.inj hk) fun k hk => Option.some.inj hk⟩
    | _ => cases h
  | float x =>
    cases ty with
    | int =>
      cases h
      refine ⟨_, rfl, becomes_int (fun k hk hin => ?_) fun k hk => by cases hk⟩
      obtain ⟨hx, rfl⟩ := whole?_float hk
      exact Binary32.toIntClamped_of_mem hx (le_trans (by decide) hin.1)
        (le_trans hin.2 (by decide))
    | char =>
      cases h
      refine ⟨_, rfl, becomes_char (fun k hk hin => ?_) fun k hk => by cases hk⟩
      obtain ⟨hx, rfl⟩ := whole?_float hk
      exact Binary32.toIntClamped_of_mem hx hin.1 (le_trans hin.2 (by decide))
    | _ => cases h

/-- A character comes back from every type that it was converted to. -/
theorem becomes_char_back {c : UInt8} {ty : Ty} {v w : Scalar} (hty : ty = .int ∨ ty = .float)
    (hv : (char c).Becomes ty v) (hw : v.Becomes .char w) : w = .char c := by
  have hwhole : v.whole? = some (c.toNat : ℤ) := by
    rcases hty with rfl | rfl
    · have h := hv.kept _ rfl ⟨by omega, by have := c.toNat_lt; omega⟩
      cases v with
      | int i => exact h
      | _ => cases hv.type
    · obtain ⟨x, rfl, hnear, hexact⟩ := hv.rounded _ rfl rfl
      have hsmall : (c.toNat : ℤ).natAbs ≤ 0xFF := by have := c.toNat_lt; omega
      have hfinite : x.isFinite = true := by
        refine hnear.finite (lt_of_le_of_lt (b := 0xFF) (by exact_mod_cast hsmall) ?_)
        norm_num [Binary32.overflowValue]
      have hvalue : truncation x.toRat = c.toNat := by
        rw [hexact (by omega), truncation, if_neg (by simp)]
        simp
      simp [whole?, hfinite, hvalue]
  have h := hw.kept _ hwhole (holds_char c)
  cases w with
  | char d =>
    have hd : d.toNat = c.toNat := by simpa [toInt?] using h
    rw [UInt8.toNat_inj.1 hd]
  | _ => cases hw.type

/-! ## The code of a conversion -/

open Builder

theorem conversion?_isSome_of_ne {s t : Ty} (hs : s.isArithmetic = true) (ht : t.isArithmetic = true)
    (hne : s ≠ t) : ∃ op, conversion? s t = some op := by
  cases s with
  | char =>
    cases t with
    | char => exact absurd rfl hne
    | int | float => exact ⟨_, rfl⟩
    | _ => cases ht
  | int =>
    cases t with
    | int => exact absurd rfl hne
    | char | float => exact ⟨_, rfl⟩
    | _ => cases ht
  | float =>
    cases t with
    | float => exact absurd rfl hne
    | char | int => exact ⟨_, rfl⟩
    | _ => cases ht
  | _ => cases hs

/-- A conversion is written as one instruction. -/
theorem convert_writes {b : Builder} (hb : b.CanWrite) {v : Value} {ty : Ty}
    (hs : v.ty.isArithmetic = true) (ht : ty.isArithmetic = true) (hne : v.ty ≠ ty)
    (context : TypeContext) (span : Option Syntax.Span) :
    ∃ w b' is, Writes (convert v ty context span) b w b' is ∧ w.ty = ty ∧
      ∀ x, x.ty = v.ty → ∃ y, Computes is v.operand x w.operand y ∧ x.Becomes ty y := by
  obtain ⟨op, hop⟩ := conversion?_isSome_of_ne hs ht hne
  have hvoid : ty ≠ .void := by
    rintro rfl
    cases ht
  obtain ⟨id, b', hwrites⟩ := pushInst_writes hb hvoid (.cast op v.operand)
  refine ⟨⟨.temp id, ty⟩, b', _, ⟨?_, hwrites.stays, hwrites.appends⟩, rfl, fun x hx => ?_⟩
  · rw [← hwrites.yields, convert, if_neg hne, hop]
    rfl
  · rw [← hx] at hop
    obtain ⟨y, happly, hy⟩ := conversion_becomes hop
    exact ⟨y, .cast happly, hy⟩

/-- Conversions keep values as far as the target has them. Wherever a value of one arithmetic type is
converted to another one, the code that is written for it turns every value into what it should become.
The code for converting a character and converting it back gives the same character. -/
theorem conversions_keep_values (b : Builder) (hb : b.CanWrite) (v : Value)
    (hv : v.ty.isArithmetic = true) (context : TypeContext) (span : Option Syntax.Span) :
    (∀ ty : Ty, ty.isArithmetic = true → v.ty ≠ ty →
      ∃ w b' is, Writes (convert v ty context span) b w b' is ∧ w.ty = ty ∧
        ∀ x, x.ty = v.ty → ∃ y, Computes is v.operand x w.operand y ∧ x.Becomes ty y) ∧
    (v.ty = .char → ∀ ty : Ty, ty = .int ∨ ty = .float →
      ∃ w b' is, Writes (do convert (← convert v ty context span) .char context span) b w b' is ∧
        ∀ c, Computes is v.operand (.char c) w.operand (.char c)) := by
  refine ⟨fun ty ht hne => convert_writes hb hv ht hne context span, fun hc ty hty => ?_⟩
  have ht : ty.isArithmetic = true := by rcases hty with rfl | rfl <;> rfl
  have hne : Ty.char ≠ ty := by rcases hty with rfl | rfl <;> simp
  obtain ⟨u, b₁, is₁, hw₁, hu, hrun₁⟩ := convert_writes hb hv ht (hc ▸ hne) context span
  obtain ⟨w, b₂, is₂, hw₂, hw, hrun₂⟩ := convert_writes hw₁.stays (v := u)
    (by rw [hu]; exact ht) rfl (by rw [hu]; exact hne.symm) context span
  refine ⟨w, b₂, is₁ ++ is₂, hw₁.bind hw₂, fun c => ?_⟩
  obtain ⟨y, hy, hbecomes⟩ := hrun₁ (.char c) hc.symm
  obtain ⟨z, hz, hback⟩ := hrun₂ y (hbecomes.type.trans hu.symm)
  obtain rfl := becomes_char_back hty hbecomes hback
  exact hy.trans hz

/-- A function with a character as its argument, at the end of its entry block. -/
def courier : Builder where
  module :=
    { name := "courier"
      functions :=
        [{ name := "carry"
           signature := { params := [.char], ret := .char }
           blocks := [{ name := "entry" }]
           layout := [0] }] }
  cursor := some { function := 0, block := 0 }

theorem courier_keeps_characters : courier.CanWrite ∧
    (∃ w b' is, Writes (convert ⟨.arg 0, .char⟩ .int .ret none) courier w b' is ∧ w.ty = .int ∧
      ∀ x, x.ty = .char → ∃ y, Computes is (.arg 0) x w.operand y ∧ x.Becomes .int y) ∧
    ∃ w b' is, Writes (do convert (← convert ⟨.arg 0, .char⟩ .float .ret none) .char .ret none)
        courier w b' is ∧ ∀ c, Computes is (.arg 0) (.char c) w.operand (.char c) := by
  have hb : courier.CanWrite := ⟨_, _, _, rfl, rfl, rfl⟩
  obtain ⟨hconvert, hback⟩ := conversions_keep_values courier hb ⟨.arg 0, .char⟩ rfl .ret none
  exact ⟨hb, hconvert .int rfl (by simp), hback rfl .float (.inr rfl)⟩

end Lowering

end SlotIR
