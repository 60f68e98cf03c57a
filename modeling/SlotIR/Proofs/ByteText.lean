import SlotIR.Text.Bytes

/-!
# Bytes of a text

In front of the first character outside of ASCII, bytes are characters, and positions count them. So a
text splits behind every beginning that is in ASCII, and a search that looks for ASCII finds the same
in the bytes as in the characters.
-/

namespace SlotIR.Text

/-- All characters are in ASCII. -/
def Ascii (cs : List Char) : Prop :=
  ∀ c ∈ cs, c.toNat < 128

variable {a b cs : List Char} {c : Char}

theorem Ascii.cons (hc : c.toNat < 128) (h : Ascii cs) : Ascii (c :: cs) :=
  List.forall_mem_cons.2 ⟨hc, h⟩

theorem Ascii.append (ha : Ascii a) (hb : Ascii b) : Ascii (a ++ b) :=
  List.forall_mem_append.2 ⟨ha, hb⟩

/-! ## Bytes -/

theorem ofUInt8_ofNat_toNat {n : Nat} (h : n < 256) : (Char.ofUInt8 (UInt8.ofNat n)).toNat = n :=
  UInt8.toNat_ofNat_of_lt' h

theorem bytes_cons_of_ascii (h : c.toNat < 128) : bytes (c :: cs) = c :: bytes cs := by
  have hencode : String.utf8EncodeChar c = [UInt8.ofNat c.toNat] := if_pos (Nat.lt_succ_iff.1 h)
  have hchar : Char.ofUInt8 (UInt8.ofNat c.toNat) = c :=
    Char.ext (UInt32.toNat_inj.1 (ofUInt8_ofNat_toNat (by omega)))
  rw [bytes, List.flatMap_cons, hencode, List.map_append, List.map_singleton, hchar]
  rfl

/-- A character outside of ASCII begins with a byte outside of ASCII. -/
theorem bytes_cons_of_wide (h : 128 ≤ c.toNat) (cs : List Char) :
    ∃ b bs, bytes (c :: cs) = b :: bs ∧ 128 ≤ b.toNat := by
  have hencode : ∃ n rest, String.utf8EncodeChar c = UInt8.ofNat n :: rest ∧ 128 ≤ n ∧ n < 256 := by
    unfold String.utf8EncodeChar
    have hsize : ¬ c.val.toNat ≤ 127 := Nat.not_le.2 h
    rw [if_neg hsize]
    split
    · exact ⟨_, _, rfl, by omega, by omega⟩
    · split
      · exact ⟨_, _, rfl, by omega, by omega⟩
      · exact ⟨_, _, rfl, by omega, by omega⟩
  obtain ⟨n, rest, hencode, hn, hlt⟩ := hencode
  rw [bytes, List.flatMap_cons, hencode]
  exact ⟨_, _, rfl, (ofUInt8_ofNat_toNat hlt).symm ▸ hn⟩

theorem bytes_append (h : Ascii a) : bytes (a ++ b) = a ++ bytes b := by
  induction a with
  | nil => rfl
  | cons c a ih =>
    obtain ⟨hc, ha⟩ := List.forall_mem_cons.1 h
    rw [List.cons_append, bytes_cons_of_ascii hc, ih ha, List.cons_append]

/-- Bytes begin with an ASCII character exactly if the text does. -/
theorem head?_bytes (h : c.toNat < 128) : (bytes cs).head? = some c ↔ cs.head? = some c := by
  cases cs with
  | nil => rfl
  | cons d cs =>
    rcases Nat.lt_or_ge d.toNat 128 with hd | hd
    · rw [bytes_cons_of_ascii hd]
      rfl
    · obtain ⟨b, bs, hbytes, hb⟩ := bytes_cons_of_wide hd cs
      rw [hbytes, List.head?_cons, List.head?_cons, Option.some_inj, Option.some_inj]
      constructor
      · rintro rfl
        omega
      · rintro rfl
        omega

/-- ASCII at the beginning of the bytes is at the beginning of the text. -/
theorem exists_append_of_bytes (h : Ascii a) (e : bytes cs = a ++ b) :
    ∃ t, cs = a ++ t ∧ bytes t = b := by
  induction a generalizing cs with
  | nil => exact ⟨cs, rfl, e⟩
  | cons c a ih =>
    obtain ⟨hc, ha⟩ := List.forall_mem_cons.1 h
    have hhead : cs.head? = some c := (head?_bytes hc).1 (by rw [e]; rfl)
    obtain ⟨cs', rfl⟩ := List.head?_eq_some_iff.1 hhead
    rw [bytes_cons_of_ascii hc] at e
    obtain ⟨t, rfl, ht⟩ := ih ha (List.cons.inj e).2
    exact ⟨t, rfl, ht⟩

/-! ## Positions -/

theorem utf8Size_of_ascii (h : c.toNat < 128) : c.utf8Size = 1 := by
  apply Char.utf8Size_eq_one_iff.2
  exact UInt32.le_iff_toNat_le.2 (Nat.lt_succ_iff.1 h)

theorem splitAt?_append (h : Ascii a) : splitAt? a.length (a ++ b) = some (a, b) := by
  induction a with
  | nil =>
    unfold splitAt?
    rfl
  | cons c a ih =>
    obtain ⟨hc, ha⟩ := List.forall_mem_cons.1 h
    rw [List.length_cons, List.cons_append, splitAt?, utf8Size_of_ascii hc, if_pos (by omega),
      Nat.add_sub_cancel, ih ha]
    rfl

theorem insertAt?_append (h : Ascii a) (c : Char) :
    insertAt? a.length c (a ++ b) = some (a ++ c :: b) := by
  rw [insertAt?, splitAt?_append h]
  rfl

section find

variable {p : Char → Bool}

theorem find?_of_forall_not (h : ∀ c ∈ cs, p c = false) : find? p cs = none := by
  induction cs with
  | nil => rfl
  | cons c cs ih =>
    obtain ⟨hc, hcs⟩ := List.forall_mem_cons.1 h
    rw [find?, hc, ih hcs]
    rfl

theorem find?_append (h : Ascii a) (ha : ∀ c ∈ a, p c = false) (hc : p c = true) :
    find? p (a ++ c :: b) = some a.length := by
  induction a with
  | nil =>
    rw [List.nil_append, find?, if_pos hc]
    rfl
  | cons d a ih =>
    obtain ⟨hd, hascii⟩ := List.forall_mem_cons.1 h
    obtain ⟨hpd, hpa⟩ := List.forall_mem_cons.1 ha
    rw [List.cons_append, find?, hpd, ih hascii hpa, utf8Size_of_ascii hd, List.length_cons,
      Nat.add_comm]
    rfl

end find

end SlotIR.Text
