import Mathlib.Data.Int.ModEq
import SlotIR.Proofs.FloatLiterals

/-!
# Integer literals

An integer literal is an optional sign and the longest row of digits behind it (`IntegerIn`). A word of
32 bits takes up the digits one by one and wraps around at each of them, and once more for the sign; a
character keeps the low byte of the word. However many digits there are, nothing is lost but multiples
of the size of the word: the result is congruent to the unbounded integer that the text denotes
(`integer_literals_modular`).
-/

namespace SlotIR.Literal

/-! ## The integer at the beginning of a text -/

/-- The number of a row of digits, negated behind a minus. -/
def signedNumber (sign : Option Sign) (digits : List Char) : ℤ :=
  if sign = some .minus then -(number digits : ℤ) else number digits

/-- A text begins with the sign, if there is one, and with the digits, and no longer row of digits
stands there. -/
structure IntegerIn (sign : Option Sign) (digits cs : List Char) : Prop where
  begins : signText sign ++ digits <+: cs
  all_digits : AllDigits digits
  /-- A sign at the beginning is never left out. -/
  unsigned : sign = none → Unsigned cs
  longest : ∀ ds, AllDigits ds → signText sign ++ ds <+: cs → ds.length ≤ digits.length

/-- The unbounded integer that a text begins with. It is zero where there are no digits. -/
def Denotes (cs : List Char) (N : ℤ) : Prop :=
  ∃ sign digits, IntegerIn sign digits cs ∧ N = signedNumber sign digits

section integer

variable {sign : Option Sign} {digits rest cs : List Char}

/-- A row of digits that nothing prolongs is the longest one. -/
theorem integerIn_append (h : AllDigits digits) (hrest : Stops rest)
    (hsign : sign = none → Unsigned (digits ++ rest)) :
    IntegerIn sign digits (signText sign ++ (digits ++ rest)) := by
  refine ⟨⟨rest, List.append_assoc ..⟩, h, fun e => ?_, fun ds hds hprefix => ?_⟩
  · subst e
    exact hsign rfl
  · obtain ⟨t, ht⟩ := (List.prefix_append_right_inj _).1 hprefix
    have hlength : digitsLength (digits ++ rest) = digits.length := by
      rw [digitsLength_append h, digitsLength_of_stops hrest, Nat.add_zero]
    rw [← ht, digitsLength_append hds] at hlength
    omega

theorem exists_integerIn (cs : List Char) : ∃ sign digits, IntegerIn sign digits cs := by
  obtain ⟨sign, t, rfl, -, hsign⟩ := exists_sign cs
  obtain ⟨digits, rest, hdigits, rfl, hrest, -⟩ := exists_digits t
  exact ⟨sign, digits, integerIn_append hdigits hrest hsign⟩

/-- The sign and the digits of the integer are what is split off. -/
theorem IntegerIn.split (h : IntegerIn sign digits cs) : ∃ t,
    splitSign cs = (decide (sign = some .minus), t) ∧ (splitDigits t).1 = digits := by
  obtain ⟨rest, hrest⟩ := h.begins
  rw [List.append_assoc] at hrest
  subst hrest
  have hstops : Stops rest := by
    intro c hc
    obtain ⟨rest, rfl⟩ := List.head?_eq_some_iff.1 hc
    by_contra hdigit
    -- a digit behind the row would prolong it
    have hmore : AllDigits (digits ++ [c]) := by
      refine List.forall_mem_append.2 ⟨h.all_digits, ?_⟩
      simpa using hdigit
    have hle := h.longest (digits ++ [c]) hmore ⟨rest, by simp⟩
    rw [List.length_append, List.length_singleton] at hle
    omega
  refine ⟨digits ++ rest, splitSign_append sign fun e => ?_, ?_⟩
  · subst e
    exact h.unsigned rfl
  · rw [splitDigits_append h.all_digits hstops]

/-- A text begins with one integer only. -/
theorem Denotes.unique {M N : ℤ} (hM : Denotes cs M) (hN : Denotes cs N) : M = N := by
  obtain ⟨sign, digits, h, rfl⟩ := hM
  obtain ⟨sign', digits', h', rfl⟩ := hN
  obtain ⟨t, hsign, rfl⟩ := h.split
  obtain ⟨t', hsign', rfl⟩ := h'.split
  obtain ⟨hminus, rfl⟩ := Prod.mk.inj (hsign.symm.trans hsign')
  simp only [signedNumber, decide_eq_decide.1 hminus]

end integer

/-! ## Words -/

/-- One more digit, modulo the size of the word. -/
theorem appendDigit_ofInt (n : ℕ) (c : Char) :
    appendDigit (Int32.ofInt n) c = Int32.ofInt (10 * n + (c.toNat - '0'.toNat) : ℕ) := by
  rw [appendDigit, ← Int32.ofInt_eq_ofNat, Nat.cast_add, Int32.ofInt_add, Nat.cast_mul, mul_comm,
    Int32.ofInt_mul]
  rfl

/-- A word takes up digits like a number without bound, modulo its size. -/
theorem foldl_appendDigit (ds : List Char) :
    ds.foldl appendDigit 0 = Int32.ofInt (digitsValue ds) := by
  induction ds using List.reverseRecOn with
  | nil => rfl
  | append_singleton ds c ih =>
    rw [List.foldl_append, ih, List.foldl_cons, List.foldl_nil, appendDigit_ofInt, digitsValue_concat]

theorem readInt_of_integerIn {text : String} {sign : Option Sign} {digits : List Char}
    (h : IntegerIn sign digits (content text)) :
    readInt text = Int32.ofInt (signedNumber sign digits) := by
  obtain ⟨t, hsign, hdigits⟩ := h.split
  unfold content at hsign
  rw [readInt, hsign]
  dsimp only
  rw [hdigits, foldl_appendDigit, digitsValue_eq_number, signedNumber]
  by_cases hminus : sign = some .minus
  · rw [if_pos hminus, Int32.ofInt_neg, if_pos (decide_eq_true hminus)]
  · rw [if_neg hminus, if_neg (by simpa using hminus)]

/-- Words that are congruent modulo their size are the same. -/
theorem toInt_modEq_iff {i : Int32} {N : ℤ} : i.toInt ≡ N [ZMOD 2 ^ 32] ↔ i = Int32.ofInt N := by
  rw [eq_comm (a := i), Int32.ofInt_eq_iff_bmod_eq_toInt]
  constructor
  · intro h
    calc N.bmod (2 ^ 32) = (N % (2 ^ 32 : ℕ)).bmod (2 ^ 32) := (Int.emod_bmod ..).symm
      _ = (i.toInt % (2 ^ 32 : ℕ)).bmod (2 ^ 32) := by rw [Nat.cast_pow, Nat.cast_ofNat, h.eq]
      _ = i.toInt.bmod (2 ^ 32) := Int.emod_bmod ..
      _ = i.toInt := Int32.toInt_bmod_size i
  · intro h
    rw [← h]
    exact Int.bmod_emod

theorem toNat_lowByte (N : ℤ) : ((Int32.ofInt N).toUInt32.toUInt8.toNat : ℤ) = N % 256 := by
  have hword : (Int32.ofInt N).toUInt32.toNat = (N % 2 ^ 32).toNat := BitVec.toNat_ofInt ..
  rw [UInt32.toUInt8_toNat, hword]
  omega

/-- Integer literals are exact modulo the size of their word, for rows of digits of any length. Behind
its white space, every text begins with one unbounded integer: an optional sign and the longest row of
digits behind it. An `int` literal is the one word that is congruent to this integer, and a `char`
literal is its remainder. -/
theorem integer_literals_modular (text : String) : ∃ N : ℤ,
    (∀ M, Denotes (content text) M ↔ M = N) ∧
    (∀ i : Int32, i.toInt ≡ N [ZMOD 2 ^ 32] ↔ i = readInt text) ∧
    ((readChar text).toNat : ℤ) = N % 256 := by
  obtain ⟨sign, digits, h⟩ := exists_integerIn (content text)
  have hdenotes : Denotes (content text) (signedNumber sign digits) := ⟨sign, digits, h, rfl⟩
  refine ⟨signedNumber sign digits, fun M => ⟨fun hM => hM.unique hdenotes, ?_⟩, fun i => ?_, ?_⟩
  · rintro rfl
    exact hdenotes
  · rw [toInt_modEq_iff, readInt_of_integerIn h]
  · rw [readChar, readInt_of_integerIn h, toNat_lowByte]

end SlotIR.Literal
