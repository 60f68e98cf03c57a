import SlotIR.Scalar
import SlotIR.Proofs.IntegerLiterals
import SlotIR.Proofs.ShortestDecimals

/-!
# Constants read back from their text

Constants are written in one grammar and read in another. What is written for a finite float is a
numeral, in positional or in scientific notation, with the value of its shortest decimal
(`positional_spells`, `scientific_spells`). A literal is read as the number nearest to the value of its
numeral, and that is the float again. An integer is written as a sign and digits, which are read modulo
the size of a word; this is the integer again where it fits (`printed_constants_read_back`).
-/

namespace SlotIR.Literal

open Binary32 (trimZeros positional scientific)

/-! ## Digits -/

theorem number_append (a b : List Char) : number (a ++ b) = number a * 10 ^ b.length + number b := by
  rw [number, List.reverse_append, List.map_append, Nat.ofDigits_append, List.length_map,
    List.length_reverse, Nat.add_comm, Nat.mul_comm]
  rfl

theorem number_zeros (k : ℕ) : number (List.replicate k '0') = 0 := by
  induction k with
  | zero => rfl
  | succ k ih => rw [List.replicate_succ, number_zero_cons, ih]

/-- Every zero at the end takes a factor ten. -/
theorem number_append_zeros (ds : List Char) (k : ℕ) :
    number (ds ++ List.replicate k '0') = number ds * 10 ^ k := by
  rw [number_append, number_zeros, List.length_replicate, Nat.add_zero]

theorem number_toDigits (n : ℕ) : number (Nat.toDigits 10 n) = n := by
  rw [← digitsValue_eq_number]
  exact Nat.ofDigitChars_ten_toDigits

theorem allDigits_toDigits (n : ℕ) : AllDigits (Nat.toDigits 10 n) := fun _ hc =>
  Nat.isDigit_of_mem_toDigits (by norm_num) le_rfl hc

theorem allDigits_zeros (k : ℕ) : AllDigits (List.replicate k '0') := by
  intro c hc
  rw [List.eq_of_mem_replicate hc]
  rfl

theorem AllDigits.append {a b : List Char} (ha : AllDigits a) (hb : AllDigits b) :
    AllDigits (a ++ b) :=
  List.forall_mem_append.2 ⟨ha, hb⟩

/-- The sign that is written: only negative numbers have one. -/
def minusIf (negative : Bool) : Option Sign :=
  if negative then some .minus else none

theorem signText_minusIf (p : Prop) [Decidable p] :
    signText (minusIf p) = if p then ['-'] else [] := by
  by_cases h : p <;> simp [minusIf, h, signText, Sign.char]

/-- An integer is the number of its sign and its digits. -/
theorem signedNumber_toDigits (i : ℤ) :
    signedNumber (minusIf (i < 0)) (Nat.toDigits 10 i.natAbs) = i := by
  rw [signedNumber, number_toDigits]
  by_cases h : i < 0
  · rw [if_pos (by simp [minusIf, h])]
    omega
  · rw [if_neg (by simp [minusIf, h])]
    omega

/-! ## Notations -/

/-- Behind any sign, the text is a numeral with the value. -/
def Spells (cs : List Char) (v : ℚ) : Prop :=
  ∀ sign, ∃ n : Numeral, n.sign = sign ∧ n.spell = signText sign ++ cs ∧ n.value = v

theorem Numeral.spells (n : Numeral) :
    Spells (mantissaText n.whole n.fraction ++ exponentText n.exponent) n.value :=
  fun sign => ⟨{ n with sign := sign }, rfl, rfl, rfl⟩

theorem spells_parts {whole : List Char} {fraction : Option (List Char)}
    {exponent : Option ExponentPart} {v : ℚ} (hw : AllDigits whole)
    (hf : AllDigits (fraction.getD [])) (hsome : whole ≠ [])
    (hv : number (whole ++ fraction.getD []) *
      10 ^ ((exponent.map ExponentPart.value).getD 0 - ((fraction.getD []).length : ℤ)) = v) :
    Spells (mantissaText whole fraction ++ exponentText exponent) v := by
  let n : Numeral := ⟨none, whole, fraction, exponent, hw, hf, by simp [hsome]⟩
  rw [← hv]
  exact n.value_eq ▸ n.spells

/-- Digits on both sides of a point. -/
theorem spells_point {whole fraction : List Char} {v : ℚ} (hw : AllDigits whole)
    (hf : AllDigits fraction) (hsome : whole ≠ [])
    (hv : number (whole ++ fraction) * 10 ^ (-(fraction.length : ℤ)) = v) :
    Spells (whole ++ '.' :: fraction) v := by
  have hspells : Spells (mantissaText whole (some fraction) ++ exponentText none) v := by
    refine spells_parts hw hf hsome ?_
    rw [← hv, ← zero_sub]
    rfl
  rwa [exponentText, Option.map_none, Option.getD_none, List.append_nil] at hspells

/-- A power of ten as it stands behind a mantissa. -/
def powerPart (p : ℤ) : ExponentPart where
  mark := 'e'
  sign := minusIf (p < 0)
  digits := Nat.toDigits 10 p.natAbs
  is_mark := .inl rfl
  all_digits := allDigits_toDigits _
  some_digit := Nat.toDigits_ne_nil

theorem powerPart_value (p : ℤ) : (powerPart p).value = p :=
  signedNumber_toDigits p

theorem powerPart_spell (p : ℤ) : (powerPart p).spell =
    'e' :: ((if p < 0 then ['-'] else []) ++ Nat.toDigits 10 p.natAbs) := by
  rw [← signText_minusIf]
  rfl

section notations

variable {ds : List Char} (h : AllDigits ds) (hne : ds ≠ [])
include h hne

/-- Positional notation puts the digits where they belong, with zeros up to the point. -/
theorem positional_spells (point : ℤ) :
    Spells (positional ds point) (number ds * 10 ^ (point - ds.length)) := by
  unfold positional
  split
  next hpoint =>
    show Spells (['0'] ++ '.' :: (List.replicate (-point).toNat '0' ++ ds)) _
    refine spells_point (by simp [AllDigits]) ((allDigits_zeros _).append h) (by simp) ?_
    rw [List.singleton_append, number_zero_cons, number_append, number_zeros, zero_mul, zero_add,
      List.length_append, List.length_replicate]
    congr 2
    omega
  next hpoint =>
    dsimp only
    rcases le_or_gt ds.length point.toNat with hle | hlt
    · -- the point stands behind the digits
      rw [List.take_of_length_le hle, List.drop_of_length_le hle, if_pos List.isEmpty_nil]
      refine spells_point (h.append (allDigits_zeros _)) (by simp [AllDigits]) (by simp [hne]) ?_
      rw [List.append_assoc, ← List.replicate_succ', number_append_zeros, ← Binary32.decimal_scale]
      congr 2
      rw [List.length_singleton]
      omega
    · -- the point stands among the digits
      have hdrop : ¬ (ds.drop point.toNat).isEmpty = true := by simpa using hlt
      have htake : ds.take point.toNat ≠ [] := by
        refine List.ne_nil_of_length_pos ?_
        rw [List.length_take_of_le hlt.le]
        omega
      rw [if_neg hdrop, List.length_take_of_le hlt.le, Nat.sub_self, List.replicate_zero,
        List.append_nil]
      refine spells_point (fun c hc => h c (List.mem_of_mem_take hc))
        (fun c hc => h c (List.mem_of_mem_drop hc)) htake ?_
      rw [List.take_append_drop, List.length_drop]
      congr 2
      omega

/-- Scientific notation has one digit before the point, and the power of ten behind a mark. -/
theorem scientific_spells (point : ℤ) :
    Spells (scientific ds point) (number ds * 10 ^ (point - ds.length)) := by
  obtain ⟨d, ds, rfl⟩ := List.exists_cons_of_ne_nil hne
  obtain ⟨hd, hds⟩ := List.forall_mem_cons.1 h
  have hfirst : AllDigits [d] := List.forall_mem_singleton.2 hd
  have htext : scientific (d :: ds) point =
      mantissaText [d] (if ds = [] then none else some ds) ++
        exponentText (some (powerPart (point - 1))) := by
    show _ = _ ++ (powerPart (point - 1)).spell
    rw [powerPart_spell]
    unfold scientific
    cases ds <;> simp [mantissaText]
  have hfraction : (if ds = [] then none else some ds : Option (List Char)).getD [] = ds := by
    cases ds <;> rfl
  rw [htext]
  refine spells_parts hfirst (by rwa [hfraction]) (List.cons_ne_nil d []) ?_
  rw [hfraction, List.singleton_append, Option.map_some, Option.getD_some, powerPart_value,
    List.length_cons]
  congr 2
  omega

end notations

/-! ## Floats -/

theorem isBlank_eq_false {c : Char} (hlow : 0x20 < c.toNat) (hhigh : c.toNat < 0x80) :
    Text.isBlank c = false := by
  simp [Text.isBlank, Text.blankRanges]
  omega

theorem toNat_gt_of_isDigit {c : Char} (h : c.isDigit = true) : 0x20 < c.toNat := by
  simp only [Char.isDigit, Bool.and_eq_true, decide_eq_true_eq, UInt32.le_iff_toNat_le] at h
  have hle : 48 ≤ c.toNat := h.1
  omega

/-- A text that begins with a sign, a point or a digit has no white space in front. -/
theorem content_ofList {c : Char} {cs : List Char}
    (h : c = '-' ∨ c = '+' ∨ c = '.' ∨ c.isDigit = true) :
    content (String.ofList (c :: cs)) = c :: cs := by
  have hblank : Text.isBlank c = false := by
    rcases h with rfl | rfl | rfl | h
    · rfl
    · rfl
    · rfl
    · exact isBlank_eq_false (toNat_gt_of_isDigit h) (toNat_lt_of_isDigit h)
  rw [content, String.toList_ofList, Text.dropBlanks, List.dropWhile_cons_of_neg (by simp [hblank])]

theorem Numeral.content_spell (n : Numeral) : content (String.ofList n.spell) = n.spell := by
  have hhead : ∃ c cs, n.spell = c :: cs ∧ (c = '-' ∨ c = '+' ∨ c = '.' ∨ c.isDigit = true) := by
    unfold Numeral.spell
    rcases n.sign with _ | _ | _
    · cases hw : n.whole with
      | cons d ds =>
        have hd := n.whole_digits d (by simp [hw])
        cases n.fraction <;> exact ⟨d, _, rfl, .inr (.inr (.inr hd))⟩
      | nil =>
        cases hf : n.fraction with
        | none => exact absurd (by simp [hw, hf]) n.some_digit
        | some f => exact ⟨'.', _, rfl, .inr (.inr (.inl rfl))⟩
    · exact ⟨'+', _, rfl, .inr (.inl rfl)⟩
    · exact ⟨'-', _, rfl, .inl rfl⟩
  obtain ⟨c, cs, hspell, hc⟩ := hhead
  rw [hspell, content_ofList hc]

theorem Numeral.filled_value (n : Numeral) : n.filled.value = n.value := by
  rw [Numeral.value, Numeral.value, n.filled_mantissa]
  rfl

/-- All of a numeral is measured if nothing follows it. -/
theorem floatLength_spell (n : Numeral) : floatLength n.spell = n.spell.length := by
  have hdigits := mantissaDigits_spell n []
  have hge := length_le_floatLength n []
  rw [List.append_nil] at hdigits hge
  obtain ⟨n', t, ht, hlength⟩ := exists_numeral hdigits
  have hle := congrArg List.length ht
  rw [List.length_append] at hle
  omega

theorem Numeral.bytes_spell (n : Numeral) : Text.bytes n.spell = n.spell := by
  have h := Text.bytes_append (b := []) n.ascii
  rwa [List.append_nil, show Text.bytes [] = [] from rfl, List.append_nil] at h

/-- Nothing but zeros around the point is added to a numeral that is all of the text. -/
theorem decimalText?_spell (n : Numeral) : decimalText? n.spell = some n.filled.spell := by
  have hsplit := Text.splitAt?_append (b := []) n.ascii
  rw [List.append_nil] at hsplit
  rw [decimalText?, n.bytes_spell, floatLength_spell, hsplit]
  exact fillDigits?_spell n

/-- A literal that is a numeral and nothing else is read as the number nearest to its value. -/
theorem readFloat_spell (n : Numeral) :
    (readFloat (String.ofList n.spell)).Nearest n.negative n.value := by
  have hdigits : mantissaDigits n.spell ≠ 0 := by
    have h := mantissaDigits_spell n []
    rwa [List.append_nil] at h
  obtain ⟨x, hparse, hnearest⟩ := parseFloat?_nearest n.filled
  have hread : readFloat? (String.ofList n.spell) = some x := by
    have hcontent := n.content_spell
    unfold content at hcontent
    rw [readFloat?, hcontent]
    simp only [n.bytes_spell, hdigits, if_false, decimalText?_spell]
    show some ((parseFloat? n.filled.spell).getD (.zero false)) = some x
    rw [hparse]
    rfl
  rw [readFloat_of_some hread, ← n.filled_value]
  exact hnearest

end SlotIR.Literal

namespace SlotIR

open Literal

namespace Binary32

variable {x : Binary32}

/-- The text of a finite number without its sign. -/
def magnitudeText (x : Binary32) : List Char :=
  let point := x.shortestDecimal.2 + decimalLength x.shortestDecimal.1
  if x.isPositional then positional x.printedDigits (if x.shortestDecimal.1 = 0 then 1 else point)
  else scientific x.printedDigits point

theorem toText_of_finite (hx : x.isFinite = true) : x.toText =
    String.ofList (signText (minusIf x.negative) ++ x.magnitudeText) := by
  have hlt : x.magnitude.val < infinityMagnitude := of_decide_eq_true hx
  have hnan : ¬ x.isNaN = true := by
    rw [isNaN, decide_eq_true_eq]
    omega
  have hinfinite : ¬ x.isInfinite = true := by
    rw [isInfinite, beq_iff_eq]
    omega
  rw [toText, if_neg hnan]
  simp only [hinfinite]
  cases x.negative <;> rfl

/-- The digits that are written have the value of the shortest decimal, up to zeros at the end. -/
theorem exists_printedDigits (x : Binary32) : ∃ k,
    number x.printedDigits * 10 ^ k = x.shortestDecimal.1 ∧
    x.printedDigits.length + k = decimalLength x.shortestDecimal.1 ∧
    AllDigits x.printedDigits ∧ x.printedDigits ≠ [] := by
  obtain ⟨k, hk⟩ := trimZeros_append (Nat.toDigits_ne_nil (n := x.shortestDecimal.1) (b := 10))
  refine ⟨k, ?_, ?_, fun c hc => ?_, trimZeros_ne_nil _⟩
  · rw [printedDigits, ← number_append_zeros, ← hk, number_toDigits]
  · have hlength := congrArg List.length hk
    rw [List.length_append, List.length_replicate] at hlength
    exact hlength.symm
  · apply allDigits_toDigits x.shortestDecimal.1
    rw [hk]
    exact List.mem_append_left _ hc

/-- The text without the sign is a numeral with the value of the shortest decimal. -/
theorem magnitudeText_spells (x : Binary32) :
    Spells x.magnitudeText (x.shortestDecimal.1 * 10 ^ x.shortestDecimal.2) := by
  obtain ⟨k, hnumber, hlength, hdigits, hne⟩ := x.exists_printedDigits
  have hvalue : (number x.printedDigits : ℚ) *
      10 ^ (x.shortestDecimal.2 + decimalLength x.shortestDecimal.1 - x.printedDigits.length) =
      x.shortestDecimal.1 * 10 ^ x.shortestDecimal.2 := by
    rw [← hlength, ← hnumber, ← decimal_scale]
    congr 2
    omega
  unfold magnitudeText
  dsimp only
  split
  · split
    next hzero =>
      have hnone : number x.printedDigits = 0 := by
        rw [hzero] at hnumber
        exact (Nat.mul_eq_zero.1 hnumber).resolve_right (by positivity)
      have hspells := positional_spells hdigits hne 1
      rw [hzero]
      rwa [hnone, Nat.cast_zero, zero_mul, ← zero_mul ((10 : ℚ) ^ x.shortestDecimal.2),
        ← Nat.cast_zero] at hspells
    next =>
      rw [← hvalue]
      exact positional_spells hdigits hne _
  · rw [← hvalue]
    exact scientific_spells hdigits hne _

theorem readFloat_infinity (negative : Bool) :
    readFloat (infinity negative).toText = infinity negative := by
  cases negative <;> decide

/-- A number that is not a NaN is read back from its text. -/
theorem readFloat_toText (hx : x.isNaN = false) : readFloat x.toText = x := by
  by_cases hfinite : x.isFinite = true
  · obtain ⟨n, hsign, hspell, hvalue⟩ := x.magnitudeText_spells (minusIf x.negative)
    have hnearest := readFloat_spell n
    have hnegative : n.negative = x.negative := by
      rw [Numeral.negative, hsign]
      cases x.negative <;> rfl
    rw [hspell, ← toText_of_finite hfinite, hnegative, hvalue] at hnearest
    exact hnearest.unique (ofDecimal_eq_iff_nearest.1 (ofDecimal_shortestDecimal hfinite))
  · have hinfinite : x = infinity x.negative := by
      have hge : ¬ x.magnitude.val < infinityMagnitude := fun h => hfinite (decide_eq_true h)
      have hle : ¬ infinityMagnitude < x.magnitude.val := of_decide_eq_false hx
      have heq : x.magnitude.val = infinityMagnitude := by omega
      cases x
      exact congrArg _ (Fin.ext heq)
    rw [hinfinite]
    exact readFloat_infinity _

end Binary32

/-! ## Integers -/

theorem content_intText (i : ℤ) : content (Scalar.intText i) =
    signText (minusIf (i < 0)) ++ Nat.toDigits 10 i.natAbs := by
  rw [signText_minusIf, Scalar.intText]
  obtain ⟨d, ds, hds⟩ := List.exists_cons_of_ne_nil (Nat.toDigits_ne_nil (n := i.natAbs) (b := 10))
  have hd := allDigits_toDigits i.natAbs d (by simp [hds])
  rw [hds]
  by_cases hneg : i < 0
  · rw [if_pos hneg]
    exact content_ofList (.inl rfl)
  · rw [if_neg hneg]
    exact content_ofList (.inr (.inr (.inr hd)))

theorem readInt_intText (i : ℤ) : readInt (Scalar.intText i) = Int32.ofInt i := by
  have hdigits := allDigits_toDigits i.natAbs
  have hunsigned := unsigned_digits hdigits Nat.toDigits_ne_nil []
  have hinteger : IntegerIn (minusIf (i < 0)) _ _ :=
    integerIn_append hdigits (by simp [Stops]) fun _ => hunsigned
  rw [List.append_nil, ← content_intText] at hinteger
  rw [readInt_of_integerIn hinteger, signedNumber_toDigits]

/-- Constants read back. Every float that is not a NaN is read back from its text bit by bit, and so is
every word and every byte. Of the digits that are written for a finite float no one can be spared: no
decimal with fewer digits is rounded to it. -/
theorem printed_constants_read_back :
    (∀ x : Binary32, x.isNaN = false → readFloat (Scalar.float x).text = x) ∧
    (∀ i : Int32, readInt (Scalar.int i).text = i) ∧
    (∀ c : UInt8, readChar (Scalar.char c).text = c) ∧
    ∀ x : Binary32, x.isFinite = true → ∀ (coefficient : ℕ) (exponent : ℤ),
      Binary32.ofDecimal x.negative coefficient exponent = x →
      x.printedDigits.length ≤ Binary32.decimalLength coefficient := by
  refine ⟨fun x hx => Binary32.readFloat_toText hx, fun i => ?_, fun c => ?_, fun x hx _ _ h =>
    Binary32.length_printedDigits_le hx h⟩
  · rw [Scalar.text, readInt_intText, Int32.ofInt_toInt]
  · rw [Scalar.text, readChar, readInt_intText]
    have hbyte := toNat_lowByte c.toNat
    have hlt := c.toNat_lt
    apply UInt8.toNat_inj.1
    omega

/-- The smallest float with either sign, which needs one digit only, the least word and the greatest
byte. -/
theorem extremes_read_back :
    readFloat (Scalar.float ⟨true, 1⟩).text = ⟨true, 1⟩ ∧
    readInt (Scalar.int Int32.minValue).text = Int32.minValue ∧
    readChar (Scalar.char 255).text = 255 ∧
    Binary32.ofDecimal false 1 (-45) = ⟨false, 1⟩ ∧
    (⟨false, 1⟩ : Binary32).printedDigits.length ≤ Binary32.decimalLength 1 := by
  obtain ⟨hfloat, hint, hchar, hshortest⟩ := printed_constants_read_back
  have hdecimal : Binary32.ofDecimal false 1 (-45) = ⟨false, 1⟩ := by decide +kernel
  exact ⟨hfloat _ rfl, hint _, hchar _, hdecimal, hshortest ⟨false, 1⟩ rfl 1 (-45) hdecimal⟩

end SlotIR
