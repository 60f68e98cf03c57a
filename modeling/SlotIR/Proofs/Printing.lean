import SlotIR.Module.Printer
import SlotIR.Proofs.Acceptance

/-!
# The text of a verified module

The printer looks up operands, callees and labels on its own. In a module that passed verification it
finds all of them: there is a text, and it is the same whatever stands for things that do not exist
(`textWith_settled`). It holds all blocks of all bodies, each from its label to its end (`HoldsBlocks`).
Where control goes on is written as the label that a block of the same body has in front of it
(`LabelsTargets`). A label ends with the index of its block, so no two blocks of a
function have the same one, whatever they are called (`label_injective`).
-/

namespace SlotIR

/-! ## Labels -/

section labels

variable {f : Function} {i j : Nat} {b : Block}

theorem label_of_block (h : f.blocks[i]? = some b) :
    f.label i = .ok (b.name ++ "." ++ Nat.repr i) := by
  rw [Function.label, Function.block_ok.2 h]
  rfl

theorem block_of_label {l : String} (h : f.label i = .ok l) : ∃ b, f.blocks[i]? = some b := by
  cases hb : f.blocks[i]? with
  | some b => exact ⟨b, rfl⟩
  | none => simp [Function.label, Function.block, hb, bind, Except.bind] at h

/-- What follows the last point is determined by the whole. -/
theorem eq_of_append_point {a b ds es : List Char} (hds : '.' ∉ ds) (hes : '.' ∉ es)
    (h : a ++ '.' :: ds = b ++ '.' :: es) : ds = es := by
  have hsegment : ∀ {a ds : List Char}, '.' ∉ ds →
      ((a ++ '.' :: ds).reverse.takeWhile (· != '.')).reverse = ds := by
    intro a ds hds
    have hall : ∀ c ∈ ds.reverse, (c != '.') = true := by
      intro c hc
      rw [bne_iff_ne]
      rintro rfl
      exact hds (List.mem_reverse.1 hc)
    rw [List.reverse_append, List.reverse_cons, List.append_assoc, List.takeWhile_append_of_pos hall]
    simp
  rw [← hsegment hds, h, hsegment hes]

theorem point_notMem_repr (n : Nat) : '.' ∉ (Nat.repr n).toList := by
  rw [Nat.toList_repr]
  intro h
  cases Nat.isDigit_of_mem_toDigits (by decide) (by decide) h

/-- Different blocks of a function have different labels. -/
theorem label_injective {l : String} (hi : f.label i = .ok l) (hj : f.label j = .ok l) : i = j := by
  obtain ⟨b, hb⟩ := block_of_label hi
  obtain ⟨c, hc⟩ := block_of_label hj
  rw [label_of_block hb] at hi
  rw [label_of_block hc] at hj
  have h := congrArg String.toList (Except.ok.inj (hi.trans hj.symm))
  simp only [String.toList_append, List.append_assoc] at h
  have hdigits := eq_of_append_point (point_notMem_repr i) (point_notMem_repr j) h
  rw [Nat.toList_repr, Nat.toList_repr] at hdigits
  rw [← Nat.ofDigitChars_ten_toDigits (n := i), hdigits, Nat.ofDigitChars_ten_toDigits]

end labels

/-! ## Texts that need no placeholder -/

namespace Module

variable {m : Module} {f : Function}

/-- There is a text, and no placeholder is in it: it is the same with all others. -/
def Settled (x : Placeholders → Except Missing String) : Prop :=
  ∃ t, ∀ p, x p = .ok t

theorem settled_ok {t : Placeholders → String} (h : ∀ p q, t p = t q) :
    Settled fun p => .ok (t p) :=
  ⟨t .shown, fun p => congrArg Except.ok (h p .shown)⟩

theorem Settled.bind {x : Placeholders → Except Missing String}
    {next : Placeholders → String → Except Missing String} (hx : Settled x)
    (hnext : ∀ t, Settled fun p => next p t) : Settled fun p => x p >>= next p := by
  obtain ⟨t, ht⟩ := hx
  obtain ⟨u, hu⟩ := hnext t
  refine ⟨u, fun p => ?_⟩
  show (x p >>= next p) = _
  rw [ht p]
  exact hu p

section operands

variable {o : Operand} {t : Ty} (p q : Placeholders)

theorem operandText_eq (h : m.HasType f o t) : m.operandText p o = m.operandText q o := by
  cases h with
  | global h => simp only [operandText, h]
  | _ => rfl

theorem typedText_eq (h : m.HasType f o t) : m.typedText p f o = m.typedText q f o := by
  rw [typedText, typedText, hasType_iff.1 h]
  exact congrArg (t.text ++ " " ++ ·) (operandText_eq p q h)

theorem argsText_eq {os : List Operand} {ts : List Ty} (h : List.Forall₂ (m.HasType f) os ts) :
    os.map (m.typedText p f) = os.map (m.typedText q f) := by
  induction h with
  | nil => rfl
  | cons head tail ih => rw [List.map_cons, List.map_cons, typedText_eq p q head, ih]

theorem actionText_eq {a : Action} (h : a.Rule m f t) :
    m.actionText p f t a = m.actionText q f t a := by
  cases a with
  | load address => rw [actionText, actionText, typedText_eq p q h]
  | store address value =>
    obtain ⟨u, haddress, hvalue⟩ := h
    rw [actionText, actionText, typedText_eq p q haddress, typedText_eq p q hvalue]
  | cast op value =>
    obtain ⟨source, hvalue, -⟩ := h
    rw [actionText, actionText, typedText_eq p q hvalue]
  | compare lhs rhs =>
    obtain ⟨hlhs, hrhs, -⟩ := h
    rw [actionText, actionText, typedText_eq p q hlhs, operandText_eq p q hrhs]
  | call callee args =>
    obtain ⟨g, hg, hargs, -⟩ := h
    rw [actionText, actionText, argsText_eq p q hargs, calleeText, calleeText, hg]

theorem instText_eq {i : Inst} (h : i.Lawful m f) : m.instText p f i = m.instText q f i := by
  rw [instText, instText, actionText_eq p q h.rule]

end operands

/-! ## Bodies -/

/-- Every block of the body is there and obeys the rules. -/
def LawfulBody (m : Module) (f : Function) : Prop :=
  ∀ i ∈ f.layout, ∃ b, f.blocks[i]? = some b ∧ b.Lawful m f

section body

variable (hf : m.LawfulBody f)
include hf

theorem exists_label {i : Nat} (hi : i ∈ f.layout) : ∃ l, f.label i = .ok l := by
  obtain ⟨b, hb, -⟩ := hf i hi
  exact ⟨_, label_of_block hb⟩

theorem label_settled {i : Nat} (hi : i ∈ f.layout) : Settled fun _ => f.label i := by
  obtain ⟨l, hl⟩ := exists_label hf hi
  exact ⟨l, fun _ => hl⟩

theorem terminatorText_settled {t : Terminator} (h : t.Lawful m f) :
    Settled fun p => m.terminatorText p f (some t) := by
  cases t with
  | jump target =>
    exact (label_settled hf (h.targets target (by simp [Terminator.successors]))).bind
      fun l => settled_ok fun _ _ => rfl
  | branch cond onTrue onFalse =>
    have hcond : m.HasType f cond .bool := h.rule
    refine (label_settled hf (h.targets onTrue (by simp [Terminator.successors]))).bind fun l => ?_
    refine (label_settled hf (h.targets onFalse (by simp [Terminator.successors]))).bind fun l' => ?_
    exact settled_ok fun p q => by rw [typedText_eq p q hcond]
  | ret value =>
    cases value with
    | none => exact settled_ok fun _ _ => rfl
    | some v =>
      have hv : m.HasType f v f.signature.ret := h.rule.1
      exact settled_ok fun p q => by rw [typedText_eq p q hv]
  | unreachable => exact settled_ok fun _ _ => rfl

/-- The end of a block has the labels of its targets in it. -/
theorem terminatorText_label {t : Terminator} (h : t.Lawful m f) {j : Nat} (hj : j ∈ t.successors)
    {l : String} (hl : f.label j = .ok l) : ∃ before after, ∀ p,
      m.terminatorText p f (some t) = .ok (before ++ "label %" ++ l ++ after) := by
  cases t with
  | jump target =>
    cases List.mem_singleton.1 hj
    refine ⟨"br ", "", fun p => ?_⟩
    rw [terminatorText, hl, String.append_empty]
    rfl
  | branch cond onTrue onFalse =>
    have hcond : m.HasType f cond .bool := h.rule
    obtain ⟨l₁, hl₁⟩ := exists_label hf (h.targets onTrue (by simp [Terminator.successors]))
    obtain ⟨l₂, hl₂⟩ := exists_label hf (h.targets onFalse (by simp [Terminator.successors]))
    have htext : ∀ p, m.terminatorText p f (some (.branch cond onTrue onFalse)) =
        .ok ("br " ++ m.typedText .shown f cond ++ ", label %" ++ l₁ ++ ", label %" ++ l₂) := by
      intro p
      rw [terminatorText, hl₁, hl₂, typedText_eq p .shown hcond]
      rfl
    have hcomma : ", label %" = ", " ++ "label %" := rfl
    simp only [Terminator.successors, List.mem_cons, List.not_mem_nil, or_false] at hj
    rcases hj with rfl | rfl
    · cases Except.ok.inj (hl.symm.trans hl₁)
      refine ⟨"br " ++ m.typedText .shown f cond ++ ", ", ", label %" ++ l₂, fun p => ?_⟩
      rw [htext p, hcomma]
      simp only [String.append_assoc]
    · cases Except.ok.inj (hl.symm.trans hl₂)
      refine ⟨"br " ++ m.typedText .shown f cond ++ ", label %" ++ l₁ ++ ", ", "", fun p => ?_⟩
      rw [htext p, hcomma, String.append_empty]
      simp only [String.append_assoc]
  | ret value => cases hj
  | unreachable => cases hj

/-- A block begins with its label. -/
theorem blockText_eq {i : Nat} (hi : i ∈ f.layout) : ∃ l, f.label i = .ok l ∧
    ∀ slots, ∃ rest, ∀ p, m.blockText p f i slots = .ok (l ++ ":\n" ++ rest) := by
  obtain ⟨b, hb, hlawful⟩ := hf i hi
  obtain ⟨t, ht, hterminator⟩ := hlawful.terminator
  have hinsts : ∀ p q, b.insts.map (m.instText p f) = b.insts.map (m.instText q f) := fun p q =>
    List.map_congr_left fun inst hinst => instText_eq p q (hlawful.insts inst hinst)
  obtain ⟨s, hs⟩ := terminatorText_settled hf hterminator
  refine ⟨b.name ++ "." ++ Nat.repr i, label_of_block hb, fun slots =>
    ⟨.join ((slots ++ b.insts.map (m.instText .shown f) ++ [s]).map indented), fun p => ?_⟩⟩
  have hs : m.terminatorText p f (some t) = .ok s := hs p
  rw [blockText, Function.block_ok.2 hb, label_of_block hb, hinsts .shown p]
  show (m.terminatorText p f b.terminator >>= _) = _
  rw [ht, hs]
  rfl

theorem blockText_settled {i : Nat} (hi : i ∈ f.layout) (slots : List String) :
    Settled fun p => m.blockText p f i slots := by
  obtain ⟨l, -, htext⟩ := blockText_eq hf hi
  obtain ⟨rest, hrest⟩ := htext slots
  exact ⟨_, hrest⟩

theorem blockTexts_settled {is : List Nat} (his : ∀ i ∈ is, i ∈ f.layout) :
    ∀ slots : List String, Settled fun p => m.blockTexts p f is slots := by
  induction is with
  | nil => exact fun _ => settled_ok fun _ _ => rfl
  | cons i is ih =>
    intro slots
    obtain ⟨hi, his⟩ := List.forall_mem_cons.1 his
    refine (blockText_settled hf hi slots).bind fun b => ?_
    exact (ih his []).bind fun bs => settled_ok fun _ _ => rfl

theorem functionText_settled : Settled fun p => m.functionText p f := by
  unfold functionText
  split
  · exact (blockTexts_settled hf (fun _ hi => hi) _).bind fun body => settled_ok fun _ _ => rfl
  · exact settled_ok fun _ _ => rfl

end body

/-! ## Modules -/

theorem functionTexts_settled {fs : List Function} (h : ∀ f ∈ fs, m.LawfulBody f) :
    Settled fun p => m.functionTexts p fs := by
  induction fs with
  | nil => exact settled_ok fun _ _ => rfl
  | cons f fs ih =>
    obtain ⟨hf, hfs⟩ := List.forall_mem_cons.1 h
    refine (functionText_settled hf).bind fun t => ?_
    exact (ih hfs).bind fun ts => settled_ok fun _ _ => rfl

theorem textWith_settled (h : ∀ f ∈ m.functions, m.LawfulBody f) :
    Settled fun p => m.textWith p :=
  (functionTexts_settled h).bind fun _ => settled_ok fun _ _ => rfl

theorem lawfulBody_of_verify (h : m.verify = .ok ()) {f : Function} (hf : f ∈ m.functions) :
    m.LawfulBody f := by
  intro i hi
  have hbody := verifyBody_ok.1 ((verify_ok.1 h).2.2.2 f hf) (List.ne_nil_of_mem hi)
  obtain ⟨b, hb, hok⟩ := hbody.blocks i hi
  exact ⟨b, hb, blockOk_iff.1 hok⟩

/-! ## What a text holds -/

section parts

variable {p : Placeholders} {t : String}

/-- A block ends with its terminator. -/
theorem blockText_end {i : Nat} {slots : List String} (h : m.blockText p f i slots = .ok t) :
    ∃ b e, f.blocks[i]? = some b ∧ m.terminatorText p f b.terminator = .ok e ∧
      (indented e).toList <:+ t.toList := by
  obtain ⟨b, hb, h⟩ := Checked.bind_ok.1 h
  obtain ⟨l, -, h⟩ := Checked.bind_ok.1 h
  obtain ⟨e, he, h⟩ := Checked.bind_ok.1 h
  cases h
  refine ⟨b, e, Function.block_ok.1 hb, he, ?_⟩
  rw [List.map_append, List.map_singleton, String.join_append, String.join_cons, String.join_nil,
    String.append_empty, ← String.append_assoc, String.toList_append]
  exact List.suffix_append ..

theorem blockTexts_part {is : List Nat} {i : Nat} (hi : i ∈ is) : ∀ {slots : List String} {t : String},
    m.blockTexts p f is slots = .ok t →
      ∃ slots' block, m.blockText p f i slots' = .ok block ∧ block.toList <:+: t.toList := by
  induction is with
  | nil => cases hi
  | cons j is ih =>
    intro slots t h
    obtain ⟨block, hblock, h⟩ := Checked.bind_ok.1 h
    obtain ⟨rest, hrest, h⟩ := Checked.bind_ok.1 h
    cases h
    rw [String.toList_append]
    rcases List.mem_cons.1 hi with rfl | hi
    · exact ⟨slots, block, hblock, (List.prefix_append ..).isInfix⟩
    · obtain ⟨slots', block', hblock', hpart⟩ := ih hi hrest
      exact ⟨slots', block', hblock', hpart.trans (List.suffix_append ..).isInfix⟩

theorem functionText_part {i : Nat} (hi : i ∈ f.layout) (h : m.functionText p f = .ok t) :
    ∃ slots block, m.blockText p f i slots = .ok block ∧ block.toList <:+: t.toList := by
  have hbody : f.hasBody = true := by
    simp [Function.hasBody, List.ne_nil_of_mem hi]
  rw [functionText, if_pos hbody] at h
  obtain ⟨body, hblocks, h⟩ := Checked.bind_ok.1 h
  cases h
  obtain ⟨slots, block, hblock, hpart⟩ := blockTexts_part hi hblocks
  refine ⟨slots, block, hblock, hpart.trans ?_⟩
  rw [String.toList_append, String.toList_append]
  exact List.infix_append ..

theorem functionTexts_part {fs : List Function} (hf : f ∈ fs) : ∀ {t : String},
    m.functionTexts p fs = .ok t →
      ∃ text, m.functionText p f = .ok text ∧ text.toList <:+: t.toList := by
  induction fs with
  | nil => cases hf
  | cons g fs ih =>
    intro t h
    obtain ⟨text, htext, h⟩ := Checked.bind_ok.1 h
    obtain ⟨rest, hrest, h⟩ := Checked.bind_ok.1 h
    cases h
    rcases List.mem_cons.1 hf with rfl | hf
    · rw [String.toList_append, String.toList_append]
      exact ⟨text, htext, List.infix_append ..⟩
    · obtain ⟨text', htext', hpart⟩ := ih hf hrest
      rw [String.toList_append]
      exact ⟨text', htext', hpart.trans (List.suffix_append ..).isInfix⟩

end parts

/-- A text holds every block of a body as it is printed, up to the terminator. -/
def HoldsBlocks (m : Module) (t : String) (f : Function) : Prop :=
  ∀ i ∈ f.layout, ∃ slots block, m.blockText .shown f i slots = .ok block ∧
    block.toList <:+: t.toList ∧ ∃ b e, f.blocks[i]? = some b ∧
      m.terminatorText .shown f b.terminator = .ok e ∧ (indented e).toList <:+ block.toList

theorem holdsBlocks_of_text {t : String} (h : m.text = .ok t) (hf : f ∈ m.functions) :
    m.HoldsBlocks t f := by
  intro i hi
  obtain ⟨functions, hfunctions, h⟩ := Checked.bind_ok.1 h
  cases h
  obtain ⟨text, htext, hpart⟩ := functionTexts_part hf hfunctions
  obtain ⟨slots, block, hblock, hpart'⟩ := functionText_part hi htext
  refine ⟨slots, block, hblock, ?_, blockText_end hblock⟩
  rw [String.toList_append]
  exact (hpart'.trans hpart).trans (List.suffix_append ..).isInfix

/-! ## Where control goes on -/

/-- The ends of a body: where control goes on is written as the label in front of a block of the
body. -/
def LabelsTargets (m : Module) (f : Function) : Prop :=
  ∀ i ∈ f.layout, ∃ b t, f.blocks[i]? = some b ∧ b.terminator = some t ∧
    ∀ j ∈ t.successors, j ∈ f.layout ∧ ∃ l, f.label j = .ok l ∧
      (∃ before after, ∀ p,
        m.terminatorText p f b.terminator = .ok (before ++ "label %" ++ l ++ after)) ∧
      ∀ slots, ∃ rest, ∀ p, m.blockText p f j slots = .ok (l ++ ":\n" ++ rest)

theorem labelsTargets_of_lawful (hf : m.LawfulBody f) : m.LabelsTargets f := by
  intro i hi
  obtain ⟨b, hb, hlawful⟩ := hf i hi
  obtain ⟨t, ht, hterminator⟩ := hlawful.terminator
  refine ⟨b, t, hb, ht, fun j hj => ⟨hterminator.targets j hj, ?_⟩⟩
  obtain ⟨l, hl, hblock⟩ := blockText_eq hf (hterminator.targets j hj)
  exact ⟨l, hl, ht ▸ terminatorText_label hf hterminator hj hl, hblock⟩

/-- Printing a verified module is total and unambiguous. There is a text, and it is the same whatever
would be written for types, globals, functions and ends of blocks that do not exist, so none of that is
in it. Every block that is laid out is printed in it from its label to its end, and the blocks that
control goes to from there are laid out in the same function and written as the labels in front of them.
In any function, blocks with the same label are the same block. -/
theorem verified_text_unambiguous (m : Module) (h : m.verify = .ok ()) :
    (∃ t, m.text = .ok t ∧ (∀ p, m.textWith p = .ok t) ∧ ∀ f ∈ m.functions, m.HoldsBlocks t f) ∧
    (∀ f ∈ m.functions, m.LabelsTargets f) ∧
    ∀ (f : Function) (i j : Nat) (l : String), f.label i = .ok l → f.label j = .ok l → i = j := by
  obtain ⟨t, ht⟩ := textWith_settled fun f hf => lawfulBody_of_verify h hf
  exact ⟨⟨t, ht .shown, ht, fun f hf => holdsBlocks_of_text (ht .shown) hf⟩, fun f hf => labelsTargets_of_lawful (lawfulBody_of_verify h hf),
    fun f i j l hi hj => label_injective hi hj⟩

/-- Takes one of two ways. The name of the first block is the label of the second. -/
def fork : Function where
  name := "fork"
  signature := { params := [], ret := .void }
  blocks := [
    { name := "x.1"
      insts := [
        { result := some 0, ty := .float, action := .load (.global 0) },
        { result := some 1, ty := .bool, action := .compare (.temp 0) (.const (.float (.zero false))) }]
      terminator := some (.branch (.temp 1) 1 2) },
    { name := "x"
      insts := [{ result := none, ty := .void, action := .call 0 [] }]
      terminator := some (.jump 2) },
    { name := "", terminator := some (.ret none) }]
  layout := [0, 2, 1]

def crossroads : Module where
  name := "crossroads"
  globals := [{ name := "way", ty := .float, init := .float (.zero true) }]
  functions := [{ name := "rest", signature := { params := [], ret := .void } }, fork]

theorem crossroads_text_unambiguous : crossroads.verify = .ok () ∧
    (∃ t, crossroads.text = .ok t ∧ (∀ p, crossroads.textWith p = .ok t) ∧
      crossroads.HoldsBlocks t fork) ∧
    crossroads.LabelsTargets fork ∧ fork.label 1 = .ok "x.1" ∧
    ∀ j, fork.label j = .ok "x.1" → 1 = j := by
  have hverify : crossroads.verify = .ok () := by decide +kernel
  obtain ⟨⟨t, htext, hsame, hblocks⟩, htargets, hlabels⟩ :=
    verified_text_unambiguous crossroads hverify
  have hlabel : fork.label 1 = .ok "x.1" := rfl
  exact ⟨hverify, ⟨t, htext, hsame, hblocks fork (by decide)⟩, htargets fork (by decide), hlabel,
    fun j => hlabels fork 1 j "x.1" hlabel⟩

end Module

end SlotIR
