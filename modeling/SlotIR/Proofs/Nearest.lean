import Mathlib.Algebra.Order.Field.Rat
import Mathlib.Data.Nat.Cast.Order.Field
import Mathlib.Tactic.FieldSimp
import Mathlib.Tactic.Linarith
import Mathlib.Tactic.NormNum
import Mathlib.Tactic.Positivity
import Mathlib.Tactic.Ring
import SlotIR.Binary32.Rounding

/-!
# Nearest numbers

A finite number has a rational value, and `Nearest` says which number an exact value is rounded to:
no finite number is closer to it, of two that are equally close it is the even one, and what lies half
a step or more beyond the greatest finite number is infinite. Quotients, integers and decimals are
rounded that way (`ofQuotient_nearest`, `ofInt_nearest`, `ofDecimal_nearest`).

The argument is on magnitudes. Their values grow with them, and within a binade they are multiples of
one power of two; so it is enough to round to a multiple of the right power.
-/

namespace SlotIR

/-! ## Whole numbers -/

/-- `c` is the whole number nearest to `t`, the even one of two. -/
structure RoundsTo (t : ℚ) (c : Nat) : Prop where
  error : |(c : ℚ) - t| ≤ 1 / 2
  even : |(c : ℚ) - t| = 1 / 2 → c % 2 = 0

namespace RoundsTo

variable {t : ℚ} {c j : Nat}

theorem apart (t : ℚ) (h : j ≠ c) : 1 ≤ |(j : ℚ) - t| + |(c : ℚ) - t| := by
  have hone : (1 : ℚ) ≤ |(j : ℚ) - c| := by
    have : (1 : ℤ) ≤ |(j : ℤ) - c| := Int.one_le_abs (by omega)
    exact_mod_cast this
  have htri := abs_sub_le (j : ℚ) t c
  rw [abs_sub_comm t] at htri
  exact hone.trans htri

theorem le (h : RoundsTo t c) (j : Nat) : |(c : ℚ) - t| ≤ |(j : ℚ) - t| := by
  by_cases hj : j = c
  · rw [hj]
  · linarith [h.error, apart t hj]

theorem even_of_tie (h : RoundsTo t c) (hj : j ≠ c) (he : |(j : ℚ) - t| = |(c : ℚ) - t|) :
    c % 2 = 0 :=
  h.even (by linarith [h.error, apart t hj])

end RoundsTo

theorem roundQuotient_roundsTo (n : Nat) {d : Nat} (hd : 0 < d) :
    RoundsTo (n / d) (roundQuotient n d) := by
  have hd' : (0 : ℚ) < d := by exact_mod_cast hd
  have hr : n % d < d := Nat.mod_lt n hd
  have hsplit : (n : ℚ) / d = (n / d : Nat) + (n % d : Nat) / (d : ℚ) := by
    rw [eq_comm, ← sub_eq_zero]
    field_simp
    have h : (d : ℚ) * (n / d : Nat) + (n % d : Nat) = n := by exact_mod_cast Nat.div_add_mod n d
    linarith
  have hhalf : ∀ {r : ℚ}, r = (n % d : Nat) / (d : ℚ) → r = 1 / 2 → 2 * (n % d) = d := by
    rintro _ rfl he
    rw [div_eq_div_iff hd'.ne' (by norm_num)] at he
    have he' : n % d * 2 = 1 * d := by exact_mod_cast he
    omega
  unfold roundQuotient
  split
  next hc =>
    have hle : (n % d : Nat) / (d : ℚ) ≤ 1 / 2 := by
      rw [div_le_div_iff₀ hd' (by norm_num)]
      exact_mod_cast (by omega : n % d * 2 ≤ 1 * d)
    have habs : |((n / d : Nat) : ℚ) - n / d| = (n % d : Nat) / (d : ℚ) := by
      rw [hsplit, sub_add_cancel_left, abs_neg, abs_of_nonneg (by positivity)]
    refine ⟨habs.trans_le hle, fun he => ?_⟩
    have := hhalf habs he
    omega
  next hc =>
    have hge : 1 / 2 ≤ (n % d : Nat) / (d : ℚ) := by
      rw [div_le_div_iff₀ (by norm_num) hd']
      exact_mod_cast (by omega : 1 * d ≤ n % d * 2)
    have hlt : (n % d : Nat) / (d : ℚ) < 1 := by
      rw [div_lt_one hd']
      exact_mod_cast hr
    have habs : |((n / d + 1 : Nat) : ℚ) - n / d| = 1 - (n % d : Nat) / (d : ℚ) := by
      rw [hsplit, abs_of_nonneg] <;> push_cast <;> linarith
    refine ⟨by linarith, fun he => ?_⟩
    have := hhalf rfl (by linarith)
    omega

namespace Binary32

/-! ## The unit of rounding -/

theorem two_zpow_add (i j : ℤ) : (2 : ℚ) ^ (i + j) = 2 ^ i * 2 ^ j := zpow_add₀ (by norm_num) i j

theorem two_zpow_pos (i : ℤ) : (0 : ℚ) < 2 ^ i := zpow_pos (by norm_num) i

theorem two_zpow_of_nonneg {i : ℤ} (h : 0 ≤ i) : (2 : ℚ) ^ i = (Nat.pow 2 i.toNat : Nat) := by
  conv_lhs => rw [← Int.toNat_of_nonneg h, zpow_natCast]
  simp

/-- A quotient is about as large as the quotient of the leading powers of two. -/
theorem quotient_bounds {n d : Nat} (hn : 0 < n) (hd : 0 < d) :
    (2 : ℚ) ^ ((n.log2 : ℤ) - d.log2 - 1) ≤ n / d ∧
      (n / d : ℚ) < 2 ^ ((n.log2 : ℤ) - d.log2 + 1) := by
  have hd' : (0 : ℚ) < d := by exact_mod_cast hd
  have hn₁ : (2 : ℚ) ^ (n.log2 : ℤ) ≤ n := by exact_mod_cast Nat.log2_self_le hn.ne'
  have hn₂ : (n : ℚ) < 2 ^ ((n.log2 : ℤ) + 1) := by exact_mod_cast Nat.lt_log2_self (n := n)
  have hd₁ : (2 : ℚ) ^ (d.log2 : ℤ) ≤ d := by exact_mod_cast Nat.log2_self_le hd.ne'
  have hd₂ : (d : ℚ) < 2 ^ ((d.log2 : ℤ) + 1) := by exact_mod_cast Nat.lt_log2_self (n := d)
  constructor
  · rw [le_div_iff₀ hd']
    calc (2 : ℚ) ^ ((n.log2 : ℤ) - d.log2 - 1) * d
        ≤ 2 ^ ((n.log2 : ℤ) - d.log2 - 1) * 2 ^ ((d.log2 : ℤ) + 1) :=
          mul_le_mul_of_nonneg_left hd₂.le (two_zpow_pos _).le
      _ = 2 ^ (n.log2 : ℤ) := by rw [← two_zpow_add]; congr 1; ring
      _ ≤ n := hn₁
  · rw [div_lt_iff₀ hd']
    calc (n : ℚ) < 2 ^ ((n.log2 : ℤ) + 1) := hn₂
      _ = 2 ^ ((n.log2 : ℤ) - d.log2 + 1) * 2 ^ (d.log2 : ℤ) := by
          rw [← two_zpow_add]; congr 1; ring
      _ ≤ 2 ^ ((n.log2 : ℤ) - d.log2 + 1) * d :=
          mul_le_mul_of_nonneg_left hd₁ (two_zpow_pos _).le

/-- Whether `n / d` reaches a power of two, decided in whole numbers. -/
theorem exceeds_iff {n d : Nat} (hd : 0 < d) (fine : ℤ) :
    (if 0 ≤ fine then d * Nat.pow 2 (24 + fine.toNat) ≤ n
      else d * Nat.pow 2 24 ≤ n * Nat.pow 2 (-fine).toNat) ↔
      (2 : ℚ) ^ (fine + 24) ≤ n / d := by
  have hd' : (0 : ℚ) < d := by exact_mod_cast hd
  rw [le_div_iff₀ hd', mul_comm _ (d : ℚ)]
  simp only [Nat.pow_eq]
  split
  next h =>
    have e : fine + 24 = ((24 + fine.toNat : Nat) : ℤ) := by omega
    rw [e, zpow_natCast]
    exact_mod_cast Iff.rfl
  next h =>
    have e : fine + 24 = (24 : Nat) - ((-fine).toNat : ℤ) := by omega
    rw [e, zpow_sub₀ (by norm_num), zpow_natCast, zpow_natCast, mul_div_assoc',
      div_le_iff₀ (by positivity)]
    exact_mod_cast Iff.rfl

/-- In the chosen unit a quotient has at most 24 binary digits, and as many unless the unit is the
smallest one. -/
theorem roundingExponent_spec {n d : Nat} (hn : 0 < n) (hd : 0 < d) :
    -149 ≤ roundingExponent n d ∧
    (n / d : ℚ) < 2 ^ (roundingExponent n d + 24) ∧
    (roundingExponent n d = -149 ∨ (2 : ℚ) ^ (roundingExponent n d + 23) ≤ n / d) := by
  obtain ⟨hlow, hhigh⟩ := quotient_bounds hn hd
  unfold roundingExponent
  simp only [exceeds_iff hd]
  generalize (n.log2 : ℤ) - d.log2 = e at *
  -- both bounds hold before the exponent is raised to `-149`
  obtain ⟨q, hq, hlt, hle⟩ : ∃ q : ℤ,
      (if (2 : ℚ) ^ (e - 24 + 24) ≤ n / d then e - 24 + 1 else e - 24) = q ∧
      (n / d : ℚ) < 2 ^ (q + 24) ∧ (2 : ℚ) ^ (q + 23) ≤ n / d := by
    refine ⟨_, rfl, ?_⟩
    split
    next h => exact ⟨by convert hhigh using 2; ring, by convert h using 2; ring⟩
    next h => exact ⟨not_le.1 h, by convert hlow using 2; ring⟩
  rw [hq]
  refine ⟨le_max_left _ _, hlt.trans_le ?_, ?_⟩
  · exact zpow_le_zpow_right₀ (by norm_num) (by omega)
  · rcases le_total q (-149) with h | h
    · exact .inl (max_eq_left h)
    · rw [max_eq_right h]
      exact .inr hle

/-- `n / d` in units of `2 ^ q`, rounded to a whole number. -/
def roundScaled (n d : Nat) (q : ℤ) : Nat :=
  if 0 ≤ q then roundQuotient n (d * Nat.pow 2 q.toNat)
  else roundQuotient (n * Nat.pow 2 (-q).toNat) d

theorem roundScaled_roundsTo (n : Nat) {d : Nat} (hd : 0 < d) (q : ℤ) :
    RoundsTo (n / d / 2 ^ q) (roundScaled n d q) := by
  unfold roundScaled
  split
  next h =>
    rw [two_zpow_of_nonneg h, div_div, ← Nat.cast_mul]
    exact roundQuotient_roundsTo n (Nat.mul_pos hd (Nat.two_pow_pos _))
  next h =>
    have e : (n / d / 2 ^ q : ℚ) = (n * Nat.pow 2 (-q).toNat : Nat) / d := by
      rw [Nat.cast_mul, ← two_zpow_of_nonneg (by omega : 0 ≤ -q), zpow_neg]
      ring
    rw [e]
    exact roundQuotient_roundsTo _ hd

/-! ## Values of magnitudes -/

/-- How often the spacing of magnitudes was doubled up to `m`. -/
def binade (m : Nat) : Nat := m / 0x800000 - 1

/-- The value of a magnitude. Infinity counts as the power of two that follows the greatest finite
number. -/
def magnitudeValue (m : Nat) : ℚ :=
  ((m - binade m * 0x800000 : Nat) : ℚ) * 2 ^ ((binade m : ℤ) - 149)

/-- A magnitude counts the units of its binade after the steps of the binades before. -/
theorem magnitude_split (m : Nat) : ∃ c k, m = c + k * 0x800000 ∧ c < 0x1000000 ∧
    (k = 0 ∨ 0x800000 ≤ c) :=
  ⟨m - binade m * 0x800000, binade m, by unfold binade; omega, by unfold binade; omega,
    by unfold binade; omega⟩

theorem magnitudeValue_add {c k : Nat} (hc : c ≤ 0x1000000) (hk : k = 0 ∨ 0x800000 ≤ c) :
    magnitudeValue (c + k * 0x800000) = c * 2 ^ ((k : ℤ) - 149) := by
  rcases hc.lt_or_eq with hlt | rfl
  · have hb : binade (c + k * 0x800000) = k := by unfold binade; omega
    rw [magnitudeValue, hb, Nat.add_sub_cancel]
  · -- the carry into the next binade doubles the unit
    have hb : binade (0x1000000 + k * 0x800000) = k + 1 := by unfold binade; omega
    have hs : 0x1000000 + k * 0x800000 - (k + 1) * 0x800000 = 0x800000 := by omega
    have e : ((k + 1 : Nat) : ℤ) - 149 = 1 + ((k : ℤ) - 149) := by push_cast; ring
    rw [magnitudeValue, hb, hs, e, two_zpow_add]
    norm_num
    ring

theorem magnitudeValue_strictMono : StrictMono magnitudeValue := by
  refine strictMono_nat_of_lt_succ fun m => ?_
  obtain ⟨c, k, rfl, hc, hk⟩ := magnitude_split m
  rw [Nat.add_right_comm, magnitudeValue_add hc.le hk,
    magnitudeValue_add hc (hk.imp_right Nat.le_succ_of_le)]
  refine mul_lt_mul_of_pos_right ?_ (two_zpow_pos _)
  exact_mod_cast Nat.lt_succ_self c

@[simp] theorem magnitudeValue_zero : magnitudeValue 0 = 0 := by simp [magnitudeValue]

theorem magnitudeValue_nonneg (m : Nat) : 0 ≤ magnitudeValue m := by
  rw [← magnitudeValue_zero]
  exact magnitudeValue_strictMono.monotone (Nat.zero_le m)

/-- From a binade on, values are multiples of its unit. -/
theorem magnitudeValue_multiple {c k k' : Nat} (hc : c < 0x1000000) (hk : k' = 0 ∨ 0x800000 ≤ c)
    (hle : k ≤ k') : ∃ j : Nat, magnitudeValue (c + k' * 0x800000) = j * 2 ^ ((k : ℤ) - 149) := by
  have e : (k' : ℤ) - 149 = ((k' - k : Nat) : ℤ) + ((k : ℤ) - 149) := by omega
  refine ⟨c * 2 ^ (k' - k), ?_⟩
  rw [magnitudeValue_add hc.le hk, e, two_zpow_add, zpow_natCast]
  push_cast
  ring

/-- The binades before stay below the first value of a binade. -/
theorem magnitudeValue_below {c k k' : Nat} (hc : c < 0x1000000) (hk : k' = 0 ∨ 0x800000 ≤ c)
    (hlt : k' < k) :
    magnitudeValue (c + k' * 0x800000) < (0x800000 : Nat) * 2 ^ ((k : ℤ) - 149) := by
  have hc' : (c : ℚ) < 0x1000000 := by exact_mod_cast hc
  rw [magnitudeValue_add hc.le hk]
  calc (c : ℚ) * 2 ^ ((k' : ℤ) - 149) < 0x1000000 * 2 ^ ((k' : ℤ) - 149) :=
        mul_lt_mul_of_pos_right hc' (two_zpow_pos _)
    _ = (0x800000 : Nat) * 2 ^ (1 + ((k' : ℤ) - 149)) := by rw [two_zpow_add]; push_cast; ring
    _ ≤ (0x800000 : Nat) * 2 ^ ((k : ℤ) - 149) :=
        mul_le_mul_of_nonneg_left (zpow_le_zpow_right₀ (by norm_num) (by omega)) (by positivity)

/-- Every multiple of a unit with at most 24 binary digits is the value of a magnitude. -/
theorem exists_magnitudeValue {c : Nat} (hc : c ≤ 0x1000000) (k : Nat) :
    ∃ m ≤ c + k * 0x800000, magnitudeValue m = c * 2 ^ ((k : ℤ) - 149) := by
  induction k generalizing c with
  | zero => exact ⟨_, Nat.le_refl _, magnitudeValue_add hc (.inl rfl)⟩
  | succ k ih =>
    by_cases hbig : 0x800000 ≤ c
    · exact ⟨_, Nat.le_refl _, magnitudeValue_add hc (.inr hbig)⟩
    · obtain ⟨m, hm, e⟩ := ih (c := 2 * c) (by omega)
      refine ⟨m, by omega, e.trans ?_⟩
      have hk : ((k + 1 : Nat) : ℤ) - 149 = 1 + ((k : ℤ) - 149) := by push_cast; ring
      rw [hk, two_zpow_add]
      push_cast
      ring

/-! ## The closest magnitude -/

/-- `m` is the magnitude whose value is closest to `v`, the even one of two. -/
structure Closest (v : ℚ) (m : Nat) : Prop where
  le : ∀ i, |magnitudeValue m - v| ≤ |magnitudeValue i - v|
  even : ∀ i, i ≠ m → |magnitudeValue i - v| = |magnitudeValue m - v| → m % 2 = 0

theorem abs_scale {u : ℚ} (hu : 0 < u) (a v : ℚ) : |a * u - v| = |a - v / u| * u := by
  rw [← abs_of_pos hu, ← abs_mul, abs_of_pos hu, sub_mul, div_mul_cancel₀ v hu.ne']

/-- Rounding to a multiple of the unit of the right binade gives the closest magnitude. -/
theorem closest_of_roundsTo {v : ℚ} {c k : Nat} (h : RoundsTo (v / 2 ^ ((k : ℤ) - 149)) c)
    (hlt : v / 2 ^ ((k : ℤ) - 149) < 0x1000000)
    (hle : k = 0 ∨ 0x800000 ≤ v / 2 ^ ((k : ℤ) - 149)) : Closest v (c + k * 0x800000) := by
  have hu := two_zpow_pos ((k : ℤ) - 149)
  obtain ⟨herr₁, herr₂⟩ := abs_le.1 h.error
  have hc : c ≤ 0x1000000 := by
    have : (c : ℚ) < 0x1000000 + 1 := by linarith
    exact Nat.lt_succ_iff.1 (by exact_mod_cast this)
  have hk : k = 0 ∨ 0x800000 ≤ c := by
    refine hle.imp id fun hle => ?_
    have : (0x800000 : ℚ) < c + 1 := by linarith
    exact Nat.lt_succ_iff.1 (by exact_mod_cast this)
  have hvalue := magnitudeValue_add hc hk
  have hother : ∀ i, i ≠ c + k * 0x800000 →
      |magnitudeValue (c + k * 0x800000) - v| ≤ |magnitudeValue i - v| ∧
      (|magnitudeValue i - v| = |magnitudeValue (c + k * 0x800000) - v| → c % 2 = 0) := by
    intro i hi
    obtain ⟨c', k', rfl, hc', hk'⟩ := magnitude_split i
    rcases le_or_gt k k' with hkk | hkk
    · obtain ⟨j, hj⟩ := magnitudeValue_multiple hc' hk' hkk
      have hne : j ≠ c := by
        rintro rfl
        exact hi (magnitudeValue_strictMono.injective (hj.trans hvalue.symm))
      rw [hj, hvalue, abs_scale hu, abs_scale hu]
      exact ⟨mul_le_mul_of_nonneg_right (h.le j) hu.le,
        fun he => h.even_of_tie hne (mul_right_cancel₀ hu.ne' he)⟩
    · -- the first value of the binade lies between this one and `v`
      have hbelow := magnitudeValue_below hc' hk' hkk
      have hfirst : (0x800000 : Nat) * 2 ^ ((k : ℤ) - 149) ≤ v := by
        have hge := hle.resolve_left (by omega)
        rwa [le_div_iff₀ hu] at hge
      have hnear : |magnitudeValue (c + k * 0x800000) - v| ≤
          |((0x800000 : Nat) : ℚ) * 2 ^ ((k : ℤ) - 149) - v| := by
        rw [hvalue, abs_scale hu, abs_scale hu]
        exact mul_le_mul_of_nonneg_right (h.le _) hu.le
      rw [abs_of_nonpos (sub_nonpos.2 hfirst)] at hnear
      rw [abs_of_nonpos (by linarith : magnitudeValue (c' + k' * 0x800000) - v ≤ 0)]
      exact ⟨by linarith, fun he => by linarith⟩
  refine ⟨fun i => ?_, fun i hi he => ?_⟩
  · by_cases hi : i = c + k * 0x800000
    · rw [hi]
    · exact (hother i hi).1
  · have := (hother i hi).2 he
    omega

/-- The magnitude that `n / d` would be rounded to if there were no greatest one. -/
def unboundedMagnitude (n d : Nat) : Nat :=
  roundScaled n d (roundingExponent n d) + (roundingExponent n d + 149).toNat * 0x800000

theorem nearestMagnitude_eq (n d : Nat) :
    nearestMagnitude n d = min infinityMagnitude (unboundedMagnitude n d) := rfl

theorem unboundedMagnitude_closest {n d : Nat} (hn : 0 < n) (hd : 0 < d) :
    Closest (n / d) (unboundedMagnitude n d) := by
  obtain ⟨hq, hlt, hle⟩ := roundingExponent_spec hn hd
  have hround := roundScaled_roundsTo n hd (roundingExponent n d)
  unfold unboundedMagnitude
  generalize roundingExponent n d = q at *
  obtain ⟨k, rfl⟩ : ∃ k : Nat, q = k - 149 := ⟨(q + 149).toNat, by omega⟩
  have hu := two_zpow_pos ((k : ℤ) - 149)
  rw [show ((k : ℤ) - 149 + 149).toNat = k by omega]
  refine closest_of_roundsTo hround ?_ (hle.imp (fun h => by omega) fun h => ?_)
  · rw [div_lt_iff₀ hu]
    refine hlt.trans_eq ?_
    rw [two_zpow_add, mul_comm]
    norm_num
  · rw [le_div_iff₀ hu]
    refine Eq.trans_le ?_ h
    rw [two_zpow_add, mul_comm]
    norm_num

/-- What is closer to zero than to the smallest number. -/
theorem closest_zero {v : ℚ} (hv : 0 ≤ v) (hlt : v < 2 ^ (-150 : ℤ)) : Closest v 0 := by
  refine ⟨fun i => ?_, fun _ _ _ => rfl⟩
  obtain rfl | hi := Nat.eq_zero_or_pos i
  · exact le_rfl
  · have hone : magnitudeValue 1 = 2 ^ (-149 : ℤ) := by
      simpa using magnitudeValue_add (c := 1) (k := 0) (by norm_num) (.inl rfl)
    have hle := magnitudeValue_strictMono.monotone hi
    have hhalf : (2 : ℚ) ^ (-149 : ℤ) = 2 * 2 ^ (-150 : ℤ) := by
      rw [show (-149 : ℤ) = 1 + -150 by norm_num, two_zpow_add, zpow_one]
    rw [magnitudeValue_zero, zero_sub, abs_neg, abs_of_nonneg hv]
    exact le_trans (by linarith) (le_abs_self _)

/-! ## Finite and infinite -/

/-- Half way between the greatest finite number and the power of two that follows it. -/
def overflowValue : ℚ := 2 ^ 128 - 2 ^ 103

theorem magnitudeValue_infinity : magnitudeValue infinityMagnitude = 2 ^ 128 := by
  have h := magnitudeValue_add (c := 0x800000) (k := 254) (by norm_num) (.inr le_rfl)
  norm_num at h
  norm_num [infinityMagnitude, h]

theorem magnitudeValue_greatest : magnitudeValue (infinityMagnitude - 1) = 2 ^ 128 - 2 ^ 104 := by
  have h := magnitudeValue_add (c := 0xFFFFFF) (k := 253) (by norm_num) (.inr (by norm_num))
  norm_num at h
  norm_num [infinityMagnitude, h]

theorem magnitudeValue_lt_overflow {m : Nat} (h : m < infinityMagnitude) :
    magnitudeValue m < overflowValue := by
  have hle := magnitudeValue_strictMono.monotone (Nat.le_sub_one_of_lt h)
  rw [magnitudeValue_greatest] at hle
  refine hle.trans_lt ?_
  norm_num [overflowValue]

namespace Closest

variable {v : ℚ} {m : Nat}

theorem lt_infinity (h : Closest v m) (hv : v < overflowValue) : m < infinityMagnitude := by
  by_contra hge
  have hbig := magnitudeValue_strictMono.monotone (not_lt.1 hge)
  have hle := h.le (infinityMagnitude - 1)
  rw [magnitudeValue_infinity] at hbig
  rw [magnitudeValue_greatest] at hle
  unfold overflowValue at hv
  rw [abs_of_nonneg (by linarith : 0 ≤ magnitudeValue m - v)] at hle
  rcases abs_cases ((2 : ℚ) ^ 128 - 2 ^ 104 - v) with ⟨e, -⟩ | ⟨e, -⟩ <;> linarith

theorem infinity_le (h : Closest v m) (hv : overflowValue ≤ v) : infinityMagnitude ≤ m := by
  by_contra hlt
  have hsmall := magnitudeValue_strictMono.monotone (Nat.le_sub_one_of_lt (not_le.1 hlt))
  have hle := h.le infinityMagnitude
  rw [magnitudeValue_greatest] at hsmall
  rw [magnitudeValue_infinity] at hle
  unfold overflowValue at hv
  rw [abs_of_nonpos (by linarith : magnitudeValue m - v ≤ 0)] at hle
  rcases abs_cases ((2 : ℚ) ^ 128 - v) with ⟨e, -⟩ | ⟨e, -⟩
  · -- only the greatest finite number is as close as infinity, and it is odd
    have heq : magnitudeValue m = magnitudeValue (infinityMagnitude - 1) := by
      rw [magnitudeValue_greatest]
      linarith
    have htie : |magnitudeValue infinityMagnitude - v| = |magnitudeValue m - v| := by
      rw [magnitudeValue_infinity, e, abs_of_nonpos (by linarith : magnitudeValue m - v ≤ 0)]
      linarith
    have hodd := h.even _ (by omega) htie
    rw [magnitudeValue_strictMono.injective heq] at hodd
    norm_num [infinityMagnitude] at hodd
  · linarith

end Closest

/-! ## Numbers -/

/-- Whether a number is neither infinite nor a NaN. -/
def isFinite (x : Binary32) : Bool := x.magnitude.val < infinityMagnitude

/-- The absolute value of a finite number. -/
def absValue (x : Binary32) : ℚ := x.significand * 2 ^ x.exponent

/-- The value of a finite number. -/
def toRat (x : Binary32) : ℚ := if x.negative then -x.absValue else x.absValue

theorem absValue_eq (x : Binary32) : x.absValue = magnitudeValue x.magnitude.val := by
  have hs : x.significand = x.magnitude.val - binade x.magnitude.val * 0x800000 := by
    unfold significand binade
    dsimp only
    split <;> omega
  have he : x.exponent = (binade x.magnitude.val : ℤ) - 149 := by
    unfold exponent binade
    omega
  rw [absValue, hs, he, magnitudeValue]

/-- `x` is what the exact value `v` is rounded to, where a sign is given and `v` is not negative. -/
structure Nearest (negative : Bool) (v : ℚ) (x : Binary32) : Prop where
  sign : x.negative = negative
  /-- Values that are too large become infinite. -/
  infinite : overflowValue ≤ v → x.isInfinite = true
  finite : v < overflowValue → x.isFinite = true
  /-- No finite number is closer. -/
  closest : v < overflowValue → ∀ y : Binary32, y.isFinite = true →
    |x.absValue - v| ≤ |y.absValue - v|
  /-- If another finite number is as close, its last bit is zero. -/
  even : v < overflowValue → ∀ y : Binary32, y.isFinite = true → y.magnitude ≠ x.magnitude →
    |y.absValue - v| = |x.absValue - v| → x.magnitude.val % 2 = 0

namespace Nearest

variable {negative : Bool} {v : ℚ} {x y : Binary32}

theorem of_closest {m : Nat} (h : Closest v m) (hs : x.negative = negative)
    (hx : x.magnitude.val = min infinityMagnitude m) : Nearest negative v x := by
  have hfinite : v < overflowValue → x.magnitude.val = m ∧ x.isFinite = true := by
    intro hv
    have hlt := h.lt_infinity hv
    rw [min_eq_right hlt.le] at hx
    exact ⟨hx, by rw [isFinite, hx, decide_eq_true hlt]⟩
  refine ⟨hs, fun hv => ?_, fun hv => (hfinite hv).2, fun hv y _ => ?_, fun hv y _ hne he => ?_⟩
  · rw [isInfinite, hx, min_eq_left (h.infinity_le hv)]
    exact beq_self_eq_true _
  · rw [absValue_eq, absValue_eq, (hfinite hv).1]
    exact h.le _
  · rw [absValue_eq, absValue_eq, (hfinite hv).1] at he
    rw [(hfinite hv).1]
    exact h.even _ (fun e => hne (Fin.ext (e.trans (hfinite hv).1.symm))) he

/-- A value that a finite number has is kept. -/
theorem exact (h : Nearest negative v x) (hy : y.isFinite = true) (e : y.absValue = v) :
    x.absValue = v := by
  have hv : v < overflowValue := by
    rw [← e, absValue_eq]
    exact magnitudeValue_lt_overflow (of_decide_eq_true hy)
  have hle := h.closest hv y hy
  rw [e, sub_self, abs_zero] at hle
  exact sub_eq_zero.1 (abs_nonpos_iff.1 hle)

/-- What is at least as large as some number other than zero is not rounded to zero. -/
theorem magnitude_ne_zero (h : Nearest negative v x) (hy : y.isFinite = true)
    (hpos : 0 < y.absValue) (hle : y.absValue ≤ v) (hv : v < overflowValue) :
    x.magnitude.val ≠ 0 := by
  intro hx
  have hclose := h.closest hv y hy
  rw [absValue_eq x, hx, magnitudeValue_zero, zero_sub, abs_neg, abs_of_nonneg (hpos.le.trans hle),
    abs_of_nonpos (sub_nonpos.2 hle)] at hclose
  linarith

end Nearest

theorem infinity_nearest {v : ℚ} (negative : Bool) (hv : overflowValue ≤ v) :
    Nearest negative v (infinity negative) :=
  ⟨rfl, fun _ => rfl, fun h => absurd hv (not_le.2 h), fun h => absurd hv (not_le.2 h),
    fun h => absurd hv (not_le.2 h)⟩

theorem zero_nearest {v : ℚ} (negative : Bool) (hv : 0 ≤ v) (hlt : v < 2 ^ (-150 : ℤ)) :
    Nearest negative v (zero negative) :=
  .of_closest (closest_zero hv hlt) rfl rfl

theorem ofQuotient_nearest (negative : Bool) (n : Nat) {d : Nat} (hd : 0 < d) :
    Nearest negative (n / d) (ofQuotient negative n d) := by
  unfold ofQuotient
  split
  next h =>
    rw [h, Nat.cast_zero, zero_div]
    exact zero_nearest negative le_rfl (two_zpow_pos _)
  next h =>
    exact .of_closest (unboundedMagnitude_closest (Nat.pos_of_ne_zero h) hd) rfl
      (nearestMagnitude_eq n d)

/-- Integers become the nearest number. -/
theorem ofInt_nearest (i : ℤ) : Nearest (i < 0) (i.natAbs : ℚ) (ofInt i) := by
  have h := ofQuotient_nearest (i < 0) i.natAbs Nat.one_pos
  rwa [Nat.cast_one, div_one] at h

/-- Up to `2 ^ 24` every integer is the value of a number. -/
theorem exists_absValue {n : Nat} (h : n ≤ 0x1000000) :
    ∃ y : Binary32, y.isFinite = true ∧ y.absValue = n := by
  obtain ⟨m, hm, e⟩ := exists_magnitudeValue h 149
  have hlt : m < infinityMagnitude := by
    unfold infinityMagnitude
    omega
  refine ⟨⟨false, ⟨m, hlt.trans (by decide)⟩⟩, decide_eq_true hlt, ?_⟩
  rw [absValue_eq]
  exact e.trans (by simp)

/-! ## Decimals -/

theorem decimalLength_pos (n : Nat) : 0 < decimalLength n := Nat.length_toDigits_pos

theorem lt_pow_decimalLength (n : Nat) : n < 10 ^ decimalLength n :=
  (Nat.length_toDigits_le_iff (by norm_num) (decimalLength_pos n)).1 le_rfl

theorem pow_decimalLength_le {n : Nat} (h : n ≠ 0) : 10 ^ (decimalLength n - 1) ≤ n := by
  by_contra hlt
  by_cases hone : decimalLength n = 1
  · simp [hone] at hlt
    exact h hlt
  · have hpos := decimalLength_pos n
    have hle := (Nat.length_toDigits_le_iff (by norm_num : 1 < 10) (by omega)).2 (not_le.1 hlt)
    unfold decimalLength at hle hpos
    omega

theorem ten_zpow_pos (i : ℤ) : (0 : ℚ) < 10 ^ i := zpow_pos (by norm_num) i

theorem ten_zpow_add (i j : ℤ) : (10 : ℚ) ^ (i + j) = 10 ^ i * 10 ^ j :=
  zpow_add₀ (by norm_num) i j

theorem decimal_lt (coefficient : Nat) (exponent : ℤ) :
    (coefficient * 10 ^ exponent : ℚ) < 10 ^ (exponent + decimalLength coefficient) := by
  rw [add_comm, ten_zpow_add, zpow_natCast]
  refine mul_lt_mul_of_pos_right ?_ (ten_zpow_pos _)
  exact_mod_cast lt_pow_decimalLength coefficient

theorem le_decimal {coefficient : Nat} (h : coefficient ≠ 0) (exponent : ℤ) :
    (10 : ℚ) ^ (exponent + decimalLength coefficient - 1) ≤ coefficient * 10 ^ exponent := by
  have hpos := decimalLength_pos coefficient
  have e : exponent + decimalLength coefficient - 1 =
      ((decimalLength coefficient - 1 : Nat) : ℤ) + exponent := by omega
  rw [e, ten_zpow_add, zpow_natCast]
  refine mul_le_mul_of_nonneg_right ?_ (ten_zpow_pos _).le
  exact_mod_cast pow_decimalLength_le h

/-- Decimals become the nearest number. -/
theorem ofDecimal_nearest (negative : Bool) (coefficient : Nat) (exponent : ℤ) :
    Nearest negative (coefficient * 10 ^ exponent) (ofDecimal negative coefficient exponent) := by
  unfold ofDecimal
  by_cases hc : coefficient = 0
  · rw [if_pos hc, hc, Nat.cast_zero, zero_mul]
    exact zero_nearest negative le_rfl (two_zpow_pos _)
  rw [if_neg hc]
  dsimp only
  split
  next htop =>
    refine infinity_nearest negative (le_trans ?_ (le_decimal hc exponent))
    calc overflowValue ≤ 10 ^ (40 : ℤ) := by norm_num [overflowValue]
      _ ≤ 10 ^ (exponent + decimalLength coefficient - 1) :=
          zpow_le_zpow_right₀ (by norm_num) (by omega)
  next htop =>
  split
  next hlow =>
    refine zero_nearest negative (mul_nonneg (Nat.cast_nonneg _) (ten_zpow_pos _).le)
      ((decimal_lt coefficient exponent).trans_le ?_)
    calc (10 : ℚ) ^ (exponent + decimalLength coefficient) ≤ 10 ^ (-51 : ℤ) :=
          zpow_le_zpow_right₀ (by norm_num) (by omega)
      _ ≤ 2 ^ (-150 : ℤ) := by norm_num
  next hlow =>
  split
  next he =>
    have e : (coefficient * 10 ^ exponent : ℚ) =
        (coefficient * Nat.pow 10 exponent.toNat : Nat) / (1 : Nat) := by
      conv_lhs => rw [← Int.toNat_of_nonneg he, zpow_natCast]
      simp
    rw [e]
    exact ofQuotient_nearest negative _ Nat.one_pos
  next he =>
    have e : (coefficient * 10 ^ exponent : ℚ) =
        coefficient / (Nat.pow 10 (-exponent).toNat : Nat) := by
      conv_lhs => rw [show exponent = -((-exponent).toNat : ℤ) by omega, zpow_neg, zpow_natCast]
      simp [div_eq_mul_inv]
    rw [e]
    exact ofQuotient_nearest negative _ (Nat.pow_pos (by norm_num))

end Binary32

end SlotIR
