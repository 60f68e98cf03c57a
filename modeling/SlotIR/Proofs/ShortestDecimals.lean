import Mathlib.Data.List.Induction
import SlotIR.Binary32.Printer
import SlotIR.Proofs.Nearest

/-!
# Shortest decimals

Rounding has one result only (`Nearest.unique`), and a value between a number and something that is
rounded to it is rounded to it too (`Nearest.between`). The decimal that is chosen for a finite number
reads back (`ofDecimal_shortestDecimal`): either it was tried, or it is exact. No decimal with fewer
digits does (`length_printedDigits_le`): if there were one, one of the two neighbours with as many
digits would lie between it and the number, and neighbours with fewer digits are tried first.
-/

namespace SlotIR.Binary32

/-! ## Rounding -/

section rounding

variable {negative : Bool} {u v : ℚ} {x y : Binary32}

theorem absValue_strictMono (h : x.magnitude < y.magnitude) : x.absValue < y.absValue := by
  rw [absValue_eq, absValue_eq]
  exact magnitudeValue_strictMono h

theorem absValue_lt_overflow (h : x.isFinite = true) : x.absValue < overflowValue := by
  rw [absValue_eq]
  exact magnitudeValue_lt_overflow (of_decide_eq_true h)

/-- A value is not rounded to numbers on both sides of it: they would both be even, and one between them
would be closer. -/
theorem Nearest.magnitude_le (hx : Nearest negative v x) (hy : Nearest negative v y)
    (hv : v < overflowValue) : y.magnitude ≤ x.magnitude := by
  by_contra hlt
  rw [not_le] at hlt
  have hyfinite := hy.finite hv
  have htie : |y.absValue - v| = |x.absValue - v| :=
    le_antisymm (hy.closest hv x (hx.finite hv)) (hx.closest hv y hyfinite)
  have hxeven := hx.even hv y hyfinite (ne_of_gt hlt) htie
  have hyeven := hy.even hv x (hx.finite hv) (ne_of_lt hlt) htie.symm
  have hnext : x.magnitude.val + 1 < y.magnitude.val := by
    have hlt' : x.magnitude.val < y.magnitude.val := hlt
    omega
  let z : Binary32 := ⟨negative, ⟨x.magnitude.val + 1, hnext.trans y.magnitude.isLt⟩⟩
  have hz : z.isFinite = true := decide_eq_true (hnext.trans (of_decide_eq_true hyfinite))
  have hxz : x.absValue < z.absValue := absValue_strictMono (Nat.lt_succ_self x.magnitude.val)
  have hzy : z.absValue < y.absValue := absValue_strictMono hnext
  -- the value is half way between the two
  have hhalf : y.absValue - v = -(x.absValue - v) :=
    (abs_eq_abs.1 htie).resolve_left fun e => by linarith
  have hcloser : |z.absValue - v| < |x.absValue - v| := by
    rw [abs_of_neg (by linarith : x.absValue - v < 0), abs_lt]
    constructor <;> linarith
  exact absurd (hx.closest hv z hz) (not_le.2 hcloser)

/-- Rounding has one result. -/
theorem Nearest.unique (hx : Nearest negative v x) (hy : Nearest negative v y) : x = y := by
  have hmagnitude : x.magnitude = y.magnitude := by
    rcases lt_or_ge v overflowValue with hv | hv
    · exact le_antisymm (hy.magnitude_le hx hv) (hx.magnitude_le hy hv)
    · have hx' := hx.infinite hv
      have hy' := hy.infinite hv
      exact Fin.ext ((beq_iff_eq.1 hx').trans (beq_iff_eq.1 hy').symm)
  cases x
  cases y
  obtain rfl := hx.sign
  obtain rfl := hy.sign
  cases hmagnitude
  rfl

/-- What lies between a number and a value that is rounded to it is rounded to it. -/
theorem Nearest.between (h : Nearest negative v x) (hv : v < overflowValue)
    (hu : |x.absValue - v| = |x.absValue - u| + |u - v|) : Nearest negative u x := by
  have hx := h.finite hv
  have hoverflow : u < overflowValue := by
    have hlt := absValue_lt_overflow hx
    rcases abs_cases (x.absValue - v) with ⟨e, -⟩ | ⟨e, -⟩ <;>
      linarith [le_abs_self (x.absValue - u), neg_abs_le (x.absValue - u), le_abs_self (u - v),
        neg_abs_le (u - v)]
  have htri : ∀ y : Binary32, |y.absValue - v| ≤ |y.absValue - u| + |u - v| := fun y =>
    abs_sub_le ..
  refine ⟨h.sign, fun hle => absurd hoverflow (not_lt.2 hle), fun _ => hx, fun _ y hy => ?_,
    fun _ y hy hne he => ?_⟩
  · linarith [h.closest hv y hy, htri y]
  · refine h.even hv y hy hne (le_antisymm ?_ (h.closest hv y hy))
    linarith [htri y]

theorem Nearest.lt_overflow (h : Nearest negative v x) (hx : x.isFinite = true) :
    v < overflowValue := by
  by_contra hge
  have hinfinite := beq_iff_eq.1 (h.infinite (not_lt.1 hge))
  exact absurd (of_decide_eq_true hx) (by rw [hinfinite]; exact lt_irrefl _)

theorem Nearest.between_below (h : Nearest negative v x) (hx : x.isFinite = true) (hvu : v ≤ u)
    (hux : u ≤ x.absValue) : Nearest negative u x := by
  refine h.between (h.lt_overflow hx) ?_
  rw [abs_of_nonneg (by linarith), abs_of_nonneg (by linarith), abs_of_nonneg (by linarith)]
  ring

theorem Nearest.between_above (h : Nearest negative v x) (hx : x.isFinite = true)
    (hxu : x.absValue ≤ u) (huv : u ≤ v) : Nearest negative u x := by
  refine h.between (h.lt_overflow hx) ?_
  rw [abs_of_nonpos (by linarith), abs_of_nonpos (by linarith), abs_of_nonpos (by linarith)]
  ring

/-- Every finite number is rounded to itself. -/
theorem nearest_self (hx : x.isFinite = true) : Nearest x.negative x.absValue x := by
  refine ⟨rfl, fun hle => absurd (absValue_lt_overflow hx) (not_lt.2 hle), fun _ => hx,
    fun _ y _ => ?_, fun _ y _ hne he => ?_⟩
  · rw [sub_self, abs_zero]
    exact abs_nonneg _
  · rw [sub_self, abs_zero, abs_eq_zero, sub_eq_zero, absValue_eq, absValue_eq] at he
    exact absurd (Fin.ext (magnitudeValue_strictMono.injective he)) hne

end rounding

/-! ## Decimals that read back -/

variable {x : Binary32}

theorem ofDecimal_eq_iff_nearest {negative : Bool} {coefficient : ℕ} {exponent : ℤ} :
    ofDecimal negative coefficient exponent = x ↔
      Nearest negative (coefficient * 10 ^ exponent) x := by
  constructor
  · rintro rfl
    exact ofDecimal_nearest negative coefficient exponent
  · exact (ofDecimal_nearest negative coefficient exponent).unique

theorem exactDecimal_value (x : Binary32) :
    (x.exactDecimal.1 : ℚ) * 10 ^ x.exactDecimal.2 = x.absValue := by
  unfold exactDecimal absValue
  split
  next h =>
    rw [Nat.cast_mul, zpow_zero, mul_one, two_zpow_of_nonneg h]
  next h =>
    have hneg : x.exponent = -((-x.exponent).toNat : ℤ) := by omega
    have hten : (5 : ℚ) ^ (-x.exponent).toNat * 10 ^ x.exponent = 2 ^ x.exponent := by
      generalize (-x.exponent).toNat = k at hneg
      rw [hneg, zpow_neg, zpow_neg, zpow_natCast, zpow_natCast,
        show (10 : ℚ) = 5 * 2 by norm_num, mul_pow]
      field_simp
    show ((x.significand * Nat.pow 5 (-x.exponent).toNat : ℕ) : ℚ) * 10 ^ x.exponent = _
    rw [Nat.cast_mul, Nat.pow_eq, Nat.cast_pow, Nat.cast_ofNat, mul_assoc, hten]

/-- The exact decimal of a number reads back. -/
theorem ofDecimal_exactDecimal (hx : x.isFinite = true) :
    ofDecimal x.negative x.exactDecimal.1 x.exactDecimal.2 = x := by
  rw [ofDecimal_eq_iff_nearest, exactDecimal_value]
  exact nearest_self hx

/-- The decimals that are tried with up to `k` digits. -/
def candidates (x : Binary32) (k : ℕ) : List (ℕ × ℤ) :=
  (List.range k).flatMap fun i =>
    (neighbours x.exactDecimal.1 (decimalLength x.exactDecimal.1 - (i + 1))).map fun c =>
      (c, x.exactDecimal.2 + (decimalLength x.exactDecimal.1 - (i + 1) : ℕ))

/-- Whether a decimal reads back. -/
def readsBack (x : Binary32) (d : ℕ × ℤ) : Bool := ofDecimal x.negative d.1 d.2 == x

theorem shortestDecimal_eq (x : Binary32) : x.shortestDecimal =
    ((x.candidates (decimalLength x.exactDecimal.1)).find? x.readsBack).getD x.exactDecimal :=
  rfl

/-- The decimal that is chosen for a finite number reads back. -/
theorem ofDecimal_shortestDecimal (hx : x.isFinite = true) :
    ofDecimal x.negative x.shortestDecimal.1 x.shortestDecimal.2 = x := by
  rw [shortestDecimal_eq]
  cases h : (x.candidates (decimalLength x.exactDecimal.1)).find? x.readsBack with
  | none => exact ofDecimal_exactDecimal hx
  | some d =>
    have hreads : x.readsBack d = true := List.find?_some h
    exact beq_iff_eq.1 hreads

/-! ## Fewer digits -/

/-- A decimal with no more digits than `below` does not lie between the multiples `below` and
`below + 1` of a power of ten. -/
theorem decimal_outside_gap {c below : ℕ} (hbelow : 10 ^ (decimalLength c - 1) ≤ below) (e unit : ℤ) :
    (c * 10 ^ e : ℚ) ≤ below * 10 ^ unit ∨ ((below + 1 : ℕ) : ℚ) * 10 ^ unit ≤ c * 10 ^ e := by
  rcases le_or_gt unit e with hle | hlt
  · -- the decimal is a multiple of the power itself
    have hmultiple : (c * 10 ^ e : ℚ) = (c * 10 ^ (e - unit).toNat : ℕ) * 10 ^ unit := by
      have he : e = ((e - unit).toNat : ℤ) + unit := by omega
      conv_lhs => rw [he, ten_zpow_add, zpow_natCast]
      push_cast
      ring
    rw [hmultiple]
    rcases le_or_gt (c * 10 ^ (e - unit).toNat) below with h | h
    · exact .inl (mul_le_mul_of_nonneg_right (by exact_mod_cast h) (ten_zpow_pos _).le)
    · exact .inr (mul_le_mul_of_nonneg_right (by exact_mod_cast h) (ten_zpow_pos _).le)
  · refine .inl ((decimal_lt c e).le.trans ?_)
    have hpos := decimalLength_pos c
    calc (10 : ℚ) ^ (e + decimalLength c) ≤ 10 ^ (((decimalLength c - 1 : ℕ) : ℤ) + unit) :=
          zpow_le_zpow_right₀ (by norm_num) (by omega)
      _ = ((10 ^ (decimalLength c - 1) : ℕ) : ℚ) * 10 ^ unit := by
          rw [ten_zpow_add, zpow_natCast, Nat.cast_pow, Nat.cast_ofNat]
      _ ≤ below * 10 ^ unit :=
          mul_le_mul_of_nonneg_right (by exact_mod_cast hbelow) (ten_zpow_pos _).le

theorem mem_neighbours_below (coefficient dropped : ℕ) :
    coefficient / 10 ^ dropped ∈ neighbours coefficient dropped := by
  unfold neighbours
  dsimp only [Nat.pow_eq]
  split
  · simp
  · split <;> simp

theorem mem_neighbours_above {coefficient dropped : ℕ} (h : coefficient % 10 ^ dropped ≠ 0) :
    coefficient / 10 ^ dropped + 1 ∈ neighbours coefficient dropped := by
  unfold neighbours
  dsimp only [Nat.pow_eq]
  rw [if_neg h]
  split <;> simp

theorem le_of_mem_neighbours {coefficient dropped c : ℕ} (h : c ∈ neighbours coefficient dropped) :
    c ≤ coefficient / 10 ^ dropped + 1 := by
  unfold neighbours at h
  dsimp only [Nat.pow_eq] at h
  split at h
  · simp at h
    omega
  · split at h <;> simp at h <;> omega

theorem decimal_scale (c dropped : ℕ) (e : ℤ) :
    (c : ℚ) * 10 ^ (e + dropped) = ((c * 10 ^ dropped : ℕ) : ℚ) * 10 ^ e := by
  rw [ten_zpow_add, zpow_natCast]
  push_cast
  ring

/-- A coefficient lies between its neighbours. -/
theorem neighbours_bounds (coefficient dropped : ℕ) (e : ℤ) :
    ((coefficient / 10 ^ dropped : ℕ) : ℚ) * 10 ^ (e + dropped) ≤ coefficient * 10 ^ e ∧
      (coefficient * 10 ^ e : ℚ) ≤ ((coefficient / 10 ^ dropped + 1 : ℕ) : ℚ) * 10 ^ (e + dropped) := by
  rw [decimal_scale, decimal_scale]
  constructor
  · refine mul_le_mul_of_nonneg_right ?_ (ten_zpow_pos e).le
    exact_mod_cast Nat.div_mul_le_self coefficient (10 ^ dropped)
  · refine mul_le_mul_of_nonneg_right ?_ (ten_zpow_pos e).le
    have hle : coefficient ≤ (coefficient / 10 ^ dropped + 1) * 10 ^ dropped := by
      rw [Nat.add_mul, Nat.one_mul]
      exact (Nat.lt_div_mul_add (Nat.pow_pos (by norm_num))).le
    exact_mod_cast hle

theorem mem_candidates {k i c : ℕ} (hi : i < k)
    (hc : c ∈ neighbours x.exactDecimal.1 (decimalLength x.exactDecimal.1 - (i + 1))) :
    (c, x.exactDecimal.2 + (decimalLength x.exactDecimal.1 - (i + 1) : ℕ)) ∈ x.candidates k :=
  List.mem_flatMap.2 ⟨i, List.mem_range.2 hi, List.mem_map.2 ⟨c, hc, rfl⟩⟩

/-- If some decimal reads back that has fewer digits than the exact one, then one with as many digits is
tried that does. -/
theorem exists_candidate (hx : x.isFinite = true) {c : ℕ} {e : ℤ}
    (h : ofDecimal x.negative c e = x) (hlt : decimalLength c < decimalLength x.exactDecimal.1) :
    ∃ d ∈ x.candidates (decimalLength c), x.readsBack d = true := by
  rw [ofDecimal_eq_iff_nearest] at h
  have hpos := decimalLength_pos c
  obtain ⟨dropped, hdropped⟩ : ∃ dropped,
      decimalLength x.exactDecimal.1 - (decimalLength c - 1 + 1) = dropped := ⟨_, rfl⟩
  have htried : ∀ m ∈ neighbours x.exactDecimal.1 dropped,
      Nearest x.negative (m * 10 ^ (x.exactDecimal.2 + dropped)) x →
      ∃ d ∈ x.candidates (decimalLength c), x.readsBack d = true := by
    intro m hm hnearest
    rw [← hdropped] at hm hnearest
    exact ⟨_, mem_candidates (by omega) hm, beq_iff_eq.2 (ofDecimal_eq_iff_nearest.2 hnearest)⟩
  have hbelow : 10 ^ (decimalLength c - 1) ≤ x.exactDecimal.1 / 10 ^ dropped := by
    rw [Nat.le_div_iff_mul_le (Nat.pow_pos (by norm_num)), ← pow_add]
    have hne : x.exactDecimal.1 ≠ 0 := by
      intro hzero
      have hone : decimalLength 0 = 1 := rfl
      rw [hzero, hone] at hlt
      omega
    refine le_trans (le_of_eq ?_) (pow_decimalLength_le hne)
    congr 1
    omega
  obtain ⟨hlow, hhigh⟩ := neighbours_bounds x.exactDecimal.1 dropped x.exactDecimal.2
  rw [exactDecimal_value] at hlow hhigh
  rcases decimal_outside_gap hbelow e (x.exactDecimal.2 + dropped) with hle | hge
  · exact htried _ (mem_neighbours_below _ _) (h.between_below hx hle hlow)
  · by_cases hrest : x.exactDecimal.1 % 10 ^ dropped = 0
    · -- nothing but zeros is dropped
      refine htried _ (mem_neighbours_below _ _) ?_
      rw [decimal_scale, Nat.div_mul_cancel (Nat.dvd_of_mod_eq_zero hrest), exactDecimal_value]
      exact nearest_self hx
    · exact htried _ (mem_neighbours_above hrest) (h.between_above hx hhigh hge)

/-! ## Digits -/

theorem trimZeros_concat_zero (ds : List Char) : trimZeros (ds ++ ['0']) = trimZeros ds := by
  simp [trimZeros]

theorem trimZeros_concat_of_ne {c : Char} (h : c ≠ '0') (ds : List Char) :
    trimZeros (ds ++ [c]) = ds ++ [c] := by
  simp [trimZeros, h]

/-- Only zeros at the end are trimmed. -/
theorem trimZeros_append {ds : List Char} (h : ds ≠ []) :
    ∃ k, ds = trimZeros ds ++ List.replicate k '0' := by
  induction ds using List.reverseRecOn with
  | nil => exact absurd rfl h
  | append_singleton ds c ih =>
    by_cases hc : c = '0'
    · subst hc
      rw [trimZeros_concat_zero]
      by_cases hnil : ds = []
      · exact ⟨0, by simp [hnil, trimZeros]⟩
      · obtain ⟨k, hk⟩ := ih hnil
        refine ⟨k + 1, ?_⟩
        rw [List.replicate_succ', ← List.append_assoc, ← hk]
    · exact ⟨0, by rw [trimZeros_concat_of_ne hc, List.replicate_zero, List.append_nil]⟩

theorem trimZeros_ne_nil (ds : List Char) : trimZeros ds ≠ [] := by
  unfold trimZeros
  split
  · simp
  · assumption

theorem length_trimZeros_le {ds : List Char} (h : ds ≠ []) : (trimZeros ds).length ≤ ds.length := by
  obtain ⟨k, hk⟩ := trimZeros_append h
  have hlength := congrArg List.length hk
  rw [List.length_append] at hlength
  omega

/-- Up to a power of ten, a number has no more digits than its exponent when zeros are trimmed. -/
theorem length_trimZeros_toDigits {c k : ℕ} (h : c ≤ 10 ^ (k + 1)) :
    (trimZeros (Nat.toDigits 10 c)).length ≤ k + 1 := by
  have hlength : ∀ {n : ℕ}, n < 10 ^ (k + 1) → (trimZeros (Nat.toDigits 10 n)).length ≤ k + 1 :=
    fun hn => (length_trimZeros_le Nat.toDigits_ne_nil).trans
      ((Nat.length_toDigits_le_iff (by norm_num) (Nat.succ_pos k)).2 hn)
  rcases h.lt_or_eq with hlt | rfl
  · exact hlength hlt
  · have hdigits : Nat.toDigits 10 (10 ^ (k + 1)) = Nat.toDigits 10 (10 ^ k) ++ ['0'] := by
      have happend := Nat.toDigits_append_toDigits (b := 10) (n := 10 ^ k) (d := 0) (by norm_num)
        (by positivity) (by norm_num)
      rwa [Nat.toDigits_zero, Nat.add_zero, ← pow_succ', eq_comm] at happend
    rw [hdigits, trimZeros_concat_zero]
    exact hlength (Nat.pow_lt_pow_right (by norm_num) (Nat.lt_succ_self k))

/-- The digits that are written for a finite number. -/
def printedDigits (x : Binary32) : List Char := trimZeros (Nat.toDigits 10 x.shortestDecimal.1)

theorem length_of_mem_candidates {k : ℕ} (hk : k ≤ decimalLength x.exactDecimal.1) {d : ℕ × ℤ}
    (hd : d ∈ x.candidates k) : (trimZeros (Nat.toDigits 10 d.1)).length ≤ k := by
  obtain ⟨i, hi, hd⟩ := List.mem_flatMap.1 hd
  obtain ⟨c, hc, rfl⟩ := List.mem_map.1 hd
  rw [List.mem_range] at hi
  have hbound : x.exactDecimal.1 / 10 ^ (decimalLength x.exactDecimal.1 - (i + 1)) < 10 ^ (i + 1) := by
    rw [Nat.div_lt_iff_lt_mul (Nat.pow_pos (by norm_num)), ← pow_add]
    refine (lt_pow_decimalLength _).trans_le (le_of_eq ?_)
    congr 1
    omega
  exact (length_trimZeros_toDigits ((le_of_mem_neighbours hc).trans hbound)).trans hi

/-- Decimals with fewer digits are tried first. -/
theorem candidates_append {k l : ℕ} (h : k ≤ l) : ∃ rest, x.candidates l = x.candidates k ++ rest := by
  obtain ⟨n, rfl⟩ := Nat.exists_eq_add_of_le h
  unfold candidates
  rw [List.range_add, List.flatMap_append]
  exact ⟨_, rfl⟩

/-- No decimal with fewer digits than are written for a finite number reads back. -/
theorem length_printedDigits_le (hx : x.isFinite = true) {c : ℕ} {e : ℤ}
    (h : ofDecimal x.negative c e = x) : x.printedDigits.length ≤ decimalLength c := by
  unfold printedDigits
  rw [shortestDecimal_eq]
  rcases lt_or_ge (decimalLength c) (decimalLength x.exactDecimal.1) with hlt | hge
  · obtain ⟨d, hd, hreads⟩ := exists_candidate hx h hlt
    obtain ⟨d', hfind⟩ := Option.isSome_iff_exists.1 (List.find?_isSome.2 ⟨d, hd, hreads⟩)
    obtain ⟨rest, hrest⟩ := x.candidates_append hlt.le
    rw [hrest, List.find?_append, hfind]
    exact length_of_mem_candidates hlt.le (List.mem_of_find?_eq_some hfind)
  · refine le_trans ?_ hge
    cases hfind : (x.candidates (decimalLength x.exactDecimal.1)).find? x.readsBack with
    | none => exact length_trimZeros_le Nat.toDigits_ne_nil
    | some d => exact length_of_mem_candidates le_rfl (List.mem_of_find?_eq_some hfind)

end SlotIR.Binary32
