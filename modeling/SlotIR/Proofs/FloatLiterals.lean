import SlotIR.Proofs.Numerals

/-!
# Float literals

A float literal is measured in bytes, split off, completed with zeros around its point and only then
read. None of this goes wrong: positions lie between characters, the completed text is a numeral with the
same sign, mantissa and exponent, and so the literal is a number nearest to the value of the longest
numeral at the beginning of the text (`readFloat_longest_numeral`). A text without one is a word or zero.
-/

namespace SlotIR.Literal

open Text (Ascii)

/-! ## Reading a numeral -/

theorem exponent?_exponentText (exponent : Option ExponentPart) :
    exponent? (exponentText exponent) = some ((exponent.map ExponentPart.value).getD 0) := by
  cases exponent with
  | none => rfl
  | some e =>
    have hsign := splitSign_append e.sign fun _ => unsigned_digits e.all_digits e.some_digit []
    have hdigits : splitDigits e.digits = (e.digits, []) := by
      have h := splitDigits_append e.all_digits (t := []) (by simp [Stops])
      rwa [List.append_nil] at h
    rw [List.append_nil] at hsign
    show exponent? (e.mark :: (signText e.sign ++ e.digits)) = some e.value
    rw [exponent?, hsign]
    dsimp only
    rw [hdigits]
    dsimp only
    rw [if_pos ⟨isExponentMark_iff.2 e.is_mark, e.some_digit, rfl⟩, ExponentPart.value,
      digitsValue_eq_number]
    by_cases h : e.sign = some .minus <;> simp [h]

theorem exponentText_stops (exponent : Option ExponentPart) :
    Stops (exponentText exponent) ∧ (exponentText exponent).head? ≠ some '.' := by
  cases exponent with
  | none => simp [exponentText, Stops]
  | some e =>
    have h := e.spell_stops []
    rwa [List.append_nil] at h

/-- A numeral that is all of a text is read from its parts. -/
theorem parseFloat?_spell (n : Numeral) : parseFloat? n.spell =
    some (.ofDecimal n.negative (number (n.whole ++ n.fraction.getD []))
      (n.power - ((n.fraction.getD []).length : ℤ))) := by
  obtain ⟨hstops, hpoint⟩ := exponentText_stops n.exponent
  have hmantissa : ∃ t, splitDigits (mantissaText n.whole n.fraction ++ exponentText n.exponent) =
      (n.whole, t) ∧ splitFraction t = (n.fraction.getD [], exponentText n.exponent) := by
    have hf := n.fraction_digits
    cases hfraction : n.fraction with
    | none =>
      refine ⟨_, splitDigits_append n.whole_digits hstops, ?_⟩
      unfold splitFraction
      split
      · rename_i heq
        simp [heq] at hpoint
      · rfl
    | some f =>
      rw [hfraction] at hf
      refine ⟨'.' :: (f ++ exponentText n.exponent), ?_, splitDigits_append hf hstops⟩
      rw [mantissaText, List.append_assoc]
      exact splitDigits_append n.whole_digits (by simp [Stops])
  obtain ⟨t, hdigits, hfraction⟩ := hmantissa
  rw [parseFloat?, Numeral.spell, splitSign_append n.sign fun _ => n.unsigned _]
  dsimp only
  rw [hdigits]
  dsimp only
  rw [hfraction]
  dsimp only
  rw [if_neg fun h => n.some_digit (List.append_eq_nil_iff.2 h), exponent?_exponentText,
    digitsValue_eq_number]
  rfl

theorem Numeral.value_eq (n : Numeral) :
    (number (n.whole ++ n.fraction.getD []) : ℚ) *
      10 ^ (n.power - ((n.fraction.getD []).length : ℤ)) = n.value := by
  rw [Numeral.value, Numeral.mantissa, zpow_sub₀ (by norm_num), zpow_natCast, div_mul_eq_mul_div,
    mul_div_assoc]

/-- A numeral is read as a number nearest to its value. -/
theorem parseFloat?_nearest (n : Numeral) :
    ∃ x, parseFloat? n.spell = some x ∧ x.Nearest n.negative n.value := by
  refine ⟨_, parseFloat?_spell n, ?_⟩
  rw [← n.value_eq]
  exact Binary32.ofDecimal_nearest _ _ _

/-! ## Zeros around the point -/

/-- Digits, or a zero where there are none. -/
def fill (ds : List Char) : List Char :=
  if ds = [] then ['0'] else ds

theorem AllDigits.fill {ds : List Char} (h : AllDigits ds) : AllDigits (fill ds) := by
  unfold Literal.fill
  split
  · simp [AllDigits]
  · exact h

theorem fill_ne_nil (ds : List Char) : fill ds ≠ [] := by
  unfold fill
  split
  · simp
  · assumption

/-- The numeral with digits on both sides of its point. -/
def Numeral.filled (n : Numeral) : Numeral where
  sign := n.sign
  whole := fill n.whole
  fraction := n.fraction.map fill
  exponent := n.exponent
  whole_digits := n.whole_digits.fill
  fraction_digits := by
    have h := n.fraction_digits
    cases hf : n.fraction with
    | none => simp [AllDigits]
    | some f =>
      rw [hf] at h
      exact h.fill
  some_digit h := fill_ne_nil n.whole (List.append_eq_nil_iff.1 h).1

theorem number_zero_cons (ds : List Char) : number ('0' :: ds) = number ds := by
  rw [← digitsValue_eq_number, ← digitsValue_eq_number]
  rfl

theorem number_fill_append (ds es : List Char) : number (fill ds ++ es) = number (ds ++ es) := by
  unfold fill
  split
  · rename_i h
    rw [h]
    exact number_zero_cons es
  · rfl

theorem Numeral.filled_mantissa (n : Numeral) : n.filled.mantissa = n.mantissa := by
  unfold Numeral.mantissa
  show (number (fill n.whole ++ (n.fraction.map fill).getD []) : ℚ) / _ = _
  rw [number_fill_append]
  cases hf : n.fraction with
  | none => simp [Numeral.filled, hf]
  | some f =>
    by_cases hnil : f = []
    · -- a zero at the end takes a factor ten in both
      have hzero : number (n.whole ++ ['0']) = 10 * number n.whole := by
        rw [← digitsValue_eq_number, digitsValue_concat, digitsValue_eq_number]
        rfl
      simp [Numeral.filled, hf, hnil, fill, hzero]
    · simp [Numeral.filled, hf, hnil, fill]

section fill

variable {p : Char → Bool} {needs : List Char → Bool} {a b : List Char} {c : Char}

theorem fillBefore?_of_forall_not (h : ∀ c ∈ a, p c = false) : fillBefore? p needs a = some a := by
  rw [fillBefore?, Text.find?_of_forall_not h]

theorem fillBefore?_append (h : Ascii a) (ha : ∀ c ∈ a, p c = false) (hc : p c = true) :
    fillBefore? p needs (a ++ c :: b) =
      some (if needs a = true then a ++ '0' :: c :: b else a ++ c :: b) := by
  rw [fillBefore?, Text.find?_append h ha hc]
  dsimp only
  rw [Text.splitAt?_append h]
  show (if needs a = true then Text.insertAt? a.length '0' (a ++ c :: b) else some (a ++ c :: b)) = _
  rw [Text.insertAt?_append h]
  split <;> rfl

/-- Texts without a point and without a mark: signs and digits. -/
def Plain (a : List Char) : Prop :=
  ∀ c ∈ a, c.toNat < 128 ∧ c ≠ '.' ∧ isExponentMark c = false

theorem plain_signText (sign : Option Sign) : Plain (signText sign) := by
  rcases sign with _ | _ | _ <;> simp [signText, Plain, Sign.char, isExponentMark]

theorem AllDigits.plain (h : AllDigits a) : Plain a := by
  refine fun c hc => ⟨toNat_lt_of_isDigit (h c hc), ?_, ?_⟩
  · rintro rfl
    cases h _ hc
  · rw [Bool.eq_false_iff, Ne, isExponentMark_iff]
    rintro (rfl | rfl) <;> cases h _ hc

theorem Plain.append (ha : Plain a) (hb : Plain b) : Plain (a ++ b) :=
  List.forall_mem_append.2 ⟨ha, hb⟩

theorem Plain.ascii (h : Plain a) : Ascii a :=
  fun c hc => (h c hc).1

theorem Plain.getLast? (h : Plain a) : a.getLast? ≠ some '.' :=
  fun e => (h '.' (List.mem_of_getLast? e)).2.1 rfl

theorem exponentText_ascii (exponent : Option ExponentPart) : Ascii (exponentText exponent) := by
  cases exponent with
  | none => simp [exponentText, Ascii]
  | some e =>
    refine Ascii.cons ?_ ((signText_ascii e.sign).append e.all_digits.ascii)
    rcases e.is_mark with h | h <;> simp [h]

theorem exponentText_point {exponent : Option ExponentPart} : ∀ c ∈ exponentText exponent, c ≠ '.' := by
  cases exponent with
  | none => simp [exponentText]
  | some e =>
    have htail := (plain_signText e.sign).append e.all_digits.plain
    refine List.forall_mem_cons.2 ⟨?_, fun c hc => (htail c hc).2.1⟩
    rcases e.is_mark with h | h <;> simp [h]

/-- An exponent gets a zero in front of it exactly if the point is there. -/
theorem fillBefore?_exponent (h : Ascii a) (ha : ∀ c ∈ a, isExponentMark c = false)
    (exponent : Option ExponentPart) :
    fillBefore? isExponentMark (fun before => before.getLast? = some '.')
        (a ++ exponentText exponent) =
      some (if exponent.isSome ∧ a.getLast? = some '.' then a ++ '0' :: exponentText exponent
        else a ++ exponentText exponent) := by
  cases exponent with
  | none => simpa [exponentText] using fillBefore?_of_forall_not ha
  | some e =>
    show fillBefore? _ _ (a ++ e.mark :: _) = _
    rw [fillBefore?_append h ha (isExponentMark_iff.2 e.is_mark)]
    simp only [decide_eq_true_eq, Option.isSome_some, true_and]
    rfl

/-- A spelling ends with the point exactly if nothing follows it. -/
theorem getLast?_point {f : List Char} (hf : AllDigits f)
    (exponent : Option ExponentPart) :
    (a ++ '.' :: (f ++ exponentText exponent)).getLast? = some '.' ↔ f = [] ∧ exponent = none := by
  rw [List.getLast?_append_of_ne_nil _ (List.cons_ne_nil _ _), List.getLast?_cons]
  constructor
  · intro e
    have hnil : f ++ exponentText exponent = [] := by
      by_contra hne
      rw [List.getLast?_eq_some_getLast hne, Option.getD_some, Option.some_inj] at e
      have hmem := List.getLast_mem hne
      rw [e] at hmem
      rcases List.mem_append.1 hmem with hmem | hmem
      · exact (hf.plain _ hmem).2.1 rfl
      · exact exponentText_point _ hmem rfl
    obtain ⟨rfl, hexponent⟩ := List.append_eq_nil_iff.1 hnil
    cases exponent with
    | none => exact ⟨rfl, rfl⟩
    | some e => cases hexponent
  · rintro ⟨rfl, rfl⟩
    rfl

/-- Only the digits of a signed row of digits are digits. -/
theorem any_isDigit_signText {ds : List Char} (h : AllDigits ds) (sign : Option Sign) :
    (signText sign ++ ds).any Char.isDigit = !ds.isEmpty := by
  have hsign : (signText sign).any Char.isDigit = false := by
    rcases sign with _ | _ | _ <;> rfl
  rw [List.any_append, hsign, Bool.false_or]
  cases ds with
  | nil => rfl
  | cons d ds => simp [h d List.mem_cons_self]

/-- The digits before the point are filled. -/
theorem fillBefore?_point {whole : List Char} (h : AllDigits whole) (sign : Option Sign)
    (b : List Char) :
    fillBefore? (· = '.') (fun before => !before.any Char.isDigit)
        (signText sign ++ whole ++ '.' :: b) = some (signText sign ++ fill whole ++ '.' :: b) := by
  have hplain := (plain_signText sign).append h.plain
  rw [fillBefore?_append hplain.ascii (fun c hc => by simp [(hplain c hc).2.1]) (by simp),
    any_isDigit_signText h, fill]
  by_cases hnil : whole = [] <;> simp [hnil]

/-- The digits after the point are filled, in one of two places. -/
theorem fillBefore?_fraction {whole f : List Char} (hw : AllDigits whole) (hf : AllDigits f)
    (sign : Option Sign) (exponent : Option ExponentPart) :
    fillBefore? isExponentMark (fun before => before.getLast? = some '.')
        (signText sign ++ whole ++ '.' ::
          ((if f = [] ∧ exponent = none then ['0'] else f) ++ exponentText exponent)) =
      some (signText sign ++ whole ++ '.' :: (fill f ++ exponentText exponent)) := by
  generalize hf' : (if f = [] ∧ exponent = none then ['0'] else f) = f'
  have hdigits : AllDigits f' := by
    rw [← hf']
    split
    · simp [AllDigits]
    · exact hf
  have hplain := ((plain_signText sign).append hw.plain)
  have hascii : Ascii (signText sign ++ whole ++ '.' :: f') :=
    hplain.ascii.append (.cons (by simp) hdigits.ascii)
  have hmarks : ∀ c ∈ signText sign ++ whole ++ '.' :: f', isExponentMark c = false := by
    refine List.forall_mem_append.2 ⟨fun c hc => (hplain c hc).2.2, ?_⟩
    exact List.forall_mem_cons.2 ⟨by simp [isExponentMark], fun c hc => (hdigits.plain c hc).2.2⟩
  have hlast : (signText sign ++ whole ++ '.' :: f').getLast? = some '.' ↔ f' = [] := by
    have h := getLast?_point (a := signText sign ++ whole) hdigits none
    simpa [exponentText] using h
  have hfill := fillBefore?_exponent hascii hmarks exponent
  rw [List.append_assoc, List.cons_append] at hfill
  rw [hfill]
  simp only [hlast]
  subst hf'
  by_cases hnil : f = [] <;> cases exponent <;> simp [fill, hnil]

/-- Filling a spelling gives the spelling of the filled numeral. -/
theorem fillDigits?_spell (n : Numeral) : fillDigits? n.spell = some n.filled.spell := by
  have hf := n.fraction_digits
  have hplain := (plain_signText n.sign).append n.whole_digits.plain
  cases hfraction : n.fraction with
  | none =>
    have hwhole : fill n.whole = n.whole := by
      have h := n.some_digit
      rw [hfraction, Option.getD_none, List.append_nil] at h
      exact if_neg h
    have hspell : n.spell = signText n.sign ++ n.whole ++ exponentText n.exponent := by
      rw [Numeral.spell, hfraction, List.append_assoc]
      rfl
    have hpoint : ∀ c ∈ n.spell, c ≠ '.' := by
      rw [hspell]
      exact List.forall_mem_append.2 ⟨fun c hc => (hplain c hc).2.1, exponentText_point⟩
    have hlast : n.spell.getLast? ≠ some '.' := fun e => hpoint '.' (List.mem_of_getLast? e) rfl
    have hexponent := fillBefore?_exponent hplain.ascii (fun c hc => (hplain c hc).2.2) n.exponent
    rw [if_neg fun h => hplain.getLast? h.2, ← hspell] at hexponent
    rw [fillDigits?, if_neg hlast, fillBefore?_of_forall_not fun c hc => by simp [hpoint c hc]]
    refine hexponent.trans ?_
    simp only [Numeral.spell, Numeral.filled, hfraction, hwhole, Option.map_none]
  | some f =>
    rw [hfraction, Option.getD_some] at hf
    have hspell : n.spell =
        signText n.sign ++ n.whole ++ '.' :: (f ++ exponentText n.exponent) := by
      simp [Numeral.spell, hfraction, mantissaText]
    have hend : (if n.spell.getLast? = some '.' then n.spell ++ ['0'] else n.spell) =
        signText n.sign ++ n.whole ++ '.' ::
          ((if f = [] ∧ n.exponent = none then ['0'] else f) ++ exponentText n.exponent) := by
      rw [hspell]
      simp only [getLast?_point hf]
      split
      · rename_i h
        simp [h.1, h.2, exponentText]
      · rfl
    rw [fillDigits?, hend, fillBefore?_point n.whole_digits]
    refine (fillBefore?_fraction n.whole_digits.fill hf n.sign n.exponent).trans ?_
    simp [Numeral.spell, Numeral.filled, hfraction, mantissaText]

end fill

/-! ## The beginning of a text -/

theorem Numeral.ascii (n : Numeral) : Ascii n.spell := by
  have hmantissa : Ascii (mantissaText n.whole n.fraction) := by
    have hf := n.fraction_digits
    cases hfraction : n.fraction with
    | none => exact n.whole_digits.ascii
    | some f =>
      rw [hfraction] at hf
      exact n.whole_digits.ascii.append (.cons (by simp) hf.ascii)
  exact (signText_ascii n.sign).append (hmantissa.append (exponentText_ascii n.exponent))

/-- The numeral stands at the beginning of a text, and no longer one does. -/
structure Numeral.LongestIn (n : Numeral) (cs : List Char) : Prop where
  begins : n.spell <+: cs
  longest : ∀ n' : Numeral, n'.spell <+: cs → n'.spell.length ≤ n.spell.length

/-- A text has a numeral at its beginning exactly if there are digits in a mantissa there. -/
theorem mantissaDigits_bytes {cs : List Char} {n : Numeral} (h : n.spell <+: cs) :
    mantissaDigits (Text.bytes cs) ≠ 0 ∧ n.spell.length ≤ floatLength (Text.bytes cs) := by
  obtain ⟨t, rfl⟩ := h
  rw [Text.bytes_append n.ascii]
  exact ⟨mantissaDigits_spell n _, length_le_floatLength n _⟩

/-- Where there are digits, the longest numeral is what is split off. -/
theorem exists_longestIn {cs : List Char} (h : mantissaDigits (Text.bytes cs) ≠ 0) :
    ∃ n : Numeral, n.LongestIn cs ∧
      ∃ t, Text.splitAt? (floatLength (Text.bytes cs)) cs = some (n.spell, t) := by
  obtain ⟨n, t, hbytes, hlength⟩ := exists_numeral h
  obtain ⟨t', rfl, -⟩ := Text.exists_append_of_bytes n.ascii hbytes
  refine ⟨n, ⟨⟨t', rfl⟩, fun n' hn' => ?_⟩, t', ?_⟩
  · rw [← hlength]
    exact (mantissaDigits_bytes hn').2
  · rw [hlength]
    exact Text.splitAt?_append n.ascii

/-- The text behind an optional sign. -/
def unsignedText (cs : List Char) : List Char :=
  if cs.head? = some '-' ∨ cs.head? = some '+' then cs.tail else cs

/-- The word is at the beginning of the text, in any letter case. -/
def StartsWith (word : String) (cs : List Char) : Prop :=
  ∃ letters, letters <+: cs ∧ letters.map Char.toLower = word.toList

theorem splitAt?_signLength (cs : List Char) : ∃ sign,
    Text.splitAt? (signLength (Text.bytes cs)) cs = some (signText sign, unsignedText cs) := by
  obtain ⟨sign, t, hbytes, hlength, hunsigned⟩ := exists_sign (Text.bytes cs)
  obtain ⟨t', rfl, ht'⟩ := Text.exists_append_of_bytes (signText_ascii sign) hbytes
  refine ⟨sign, ?_⟩
  rw [hlength, Text.splitAt?_append (signText_ascii sign)]
  rcases sign with _ | _ | _
  · have h := hunsigned rfl
    have hminus : t'.head? ≠ some '-' := fun e =>
      h .minus (ht' ▸ (Text.head?_bytes (c := '-') (by decide)).2 e)
    have hplus : t'.head? ≠ some '+' := fun e =>
      h .plus (ht' ▸ (Text.head?_bytes (c := '+') (by decide)).2 e)
    simp [signText, unsignedText, hminus, hplus]
  · rfl
  · rfl

/-! ## Words -/

theorem startsWith_iff {word : String} {cs : List Char} :
    StartsWith word cs ↔ (cs.take word.toList.length).map Char.toLower = word.toList := by
  constructor
  · rintro ⟨letters, hprefix, hword⟩
    have hlength : letters.length = word.toList.length := by rw [← hword, List.length_map]
    rw [← hlength, ← List.prefix_iff_eq_take.1 hprefix, hword]
  · exact fun h => ⟨_, List.take_prefix _ _, h⟩

theorem readWord_cases (negative : Bool) (cs : List Char) :
    (StartsWith "inf" cs → readWord negative cs = .infinity negative) ∧
    (StartsWith "nan" cs → readWord negative cs = .nan negative) ∧
    (¬ StartsWith "inf" cs → ¬ StartsWith "nan" cs → readWord negative cs = .zero negative) := by
  have hinf : StartsWith "inf" cs ↔ (cs.take 3).map Char.toLower = ['i', 'n', 'f'] := startsWith_iff
  have hnan : StartsWith "nan" cs ↔ (cs.take 3).map Char.toLower = ['n', 'a', 'n'] := startsWith_iff
  rw [hinf, hnan, readWord]
  refine ⟨fun h => if_pos h, fun h => ?_, fun h h' => ?_⟩
  · rw [h]
    rfl
  · exact (if_neg h).trans (if_neg h')

/-- A literal behind its white space. -/
def content (text : String) : List Char :=
  Text.dropBlanks text.toList

theorem readFloat_of_some {text : String} {x : Binary32} (h : readFloat? text = some x) :
    readFloat text = x := by
  rw [readFloat, h, Option.getD_some]

theorem readFloat?_of_no_numeral {text : String}
    (h : ¬ ∃ n : Numeral, n.spell <+: content text) :
    readFloat? text = some (readWord ((content text).head? = some '-')
      (unsignedText (content text))) := by
  have hnone : mantissaDigits (Text.bytes (content text)) = 0 := by
    by_contra hsome
    obtain ⟨n, hn, -⟩ := exists_longestIn hsome
    exact h ⟨n, hn.begins⟩
  obtain ⟨sign, hsplit⟩ := splitAt?_signLength (content text)
  rw [readFloat?]
  unfold content at hnone hsplit ⊢
  simp only [hnone, if_true, hsplit, Text.head?_bytes (c := '-') (by decide)]
  rfl

theorem decimalText?_of_digits {cs : List Char} (h : mantissaDigits (Text.bytes cs) ≠ 0) :
    ∃ n : Numeral, n.LongestIn cs ∧ decimalText? cs = some n.filled.spell := by
  obtain ⟨n, hn, t, hsplit⟩ := exists_longestIn h
  refine ⟨n, hn, ?_⟩
  rw [decimalText?, hsplit]
  exact fillDigits?_spell n

/-- Float literals read the longest numeral at their beginning. For every text, no position at which it
is split is outside of it or inside of a character. If a numeral comes first behind the white space,
then the text that is parsed in the end is a numeral with the sign, the mantissa and the exponent of the
longest such one; parsing accepts it, and the result is nearest to its value. If none does, the result
is an infinity or a NaN where the text behind an optional sign starts with a word for it, and zero
otherwise, with the sign of the text. -/
theorem readFloat_longest_numeral (text : String) :
    readFloat? text = some (readFloat text) ∧
    ((∃ n : Numeral, n.spell <+: content text) →
      ∃ n : Numeral, n.LongestIn (content text) ∧
        ∃ handed : Numeral, decimalText? (content text) = some handed.spell ∧
          handed.negative = n.negative ∧ handed.mantissa = n.mantissa ∧ handed.power = n.power ∧
          parseFloat? handed.spell = some (readFloat text) ∧
          (readFloat text).Nearest n.negative n.value) ∧
    ((¬ ∃ n : Numeral, n.spell <+: content text) →
      ∀ negative, negative = decide ((content text).head? = some '-') →
        (StartsWith "inf" (unsignedText (content text)) → readFloat text = .infinity negative) ∧
        (StartsWith "nan" (unsignedText (content text)) → readFloat text = .nan negative) ∧
        (¬ StartsWith "inf" (unsignedText (content text)) →
          ¬ StartsWith "nan" (unsignedText (content text)) → readFloat text = .zero negative)) := by
  by_cases hnumeral : ∃ n : Numeral, n.spell <+: content text
  · obtain ⟨n₀, hn₀⟩ := hnumeral
    have hdigits := (mantissaDigits_bytes hn₀).1
    obtain ⟨n, hn, hhanded⟩ := decimalText?_of_digits hdigits
    obtain ⟨x, hparse, hnearest⟩ := parseFloat?_nearest n.filled
    have hread : readFloat? text = some x := by
      rw [readFloat?]
      unfold content at hdigits hhanded
      simp only [hdigits, if_false, hhanded]
      show some ((parseFloat? n.filled.spell).getD (.zero false)) = some x
      rw [hparse]
      rfl
    have hx := readFloat_of_some hread
    have hvalue : n.filled.value = n.value := by
      rw [Numeral.value, Numeral.value, n.filled_mantissa]
      rfl
    refine ⟨by rw [hx, hread], fun _ => ⟨n, hn, n.filled, hhanded, rfl, n.filled_mantissa, rfl,
      by rw [hx, hparse], ?_⟩, fun hno => absurd ⟨n₀, hn₀⟩ hno⟩
    rw [hx, ← hvalue]
    exact hnearest
  · have hread := readFloat?_of_no_numeral hnumeral
    have hx := readFloat_of_some hread
    refine ⟨by rw [hx, hread], fun h => absurd h hnumeral, fun _ negative hnegative => ?_⟩
    subst hnegative
    rw [hx]
    exact readWord_cases _ _

/-- In this text the exponent belongs to the numeral, and what follows it does not. -/
theorem dangling_exponent_longest : ∃ n : Numeral, n.LongestIn (content " -7.e1e+") ∧
    ∃ handed : Numeral, decimalText? (content " -7.e1e+") = some handed.spell ∧
      handed.negative = n.negative ∧ handed.mantissa = n.mantissa ∧ handed.power = n.power ∧
      parseFloat? handed.spell = some (readFloat " -7.e1e+") ∧
      (readFloat " -7.e1e+").Nearest n.negative n.value := by
  let e : ExponentPart := ⟨'e', none, ['1'], .inl rfl, by simp [AllDigits], by simp⟩
  let n : Numeral := ⟨some .minus, ['7'], some [], some e, by simp [AllDigits], by simp [AllDigits],
    by simp⟩
  exact (readFloat_longest_numeral " -7.e1e+").2.1 ⟨n, ['e', '+'], by decide⟩

end SlotIR.Literal
