import SlotIR.Module

/-!
# Names of functions and globals

A table to which names were added one after another says of every name which entry is the last to
carry it. Where no two entries share a name, that is the only one.
-/

namespace SlotIR

namespace NameTable

variable {names : List String} {name : String} {i : Nat}

theorem ofNames_concat (names : List String) (name : String) :
    ofNames (names ++ [name]) = (name, names.length) :: ofNames names := by
  rw [ofNames, List.zipIdx_append, List.reverse_append, Nat.zero_add]
  rfl

theorem of_lookup_ofNames (h : (ofNames names).lookup name = some i) : names[i]? = some name := by
  obtain ⟨before, after, e, -⟩ := List.lookup_eq_some_iff.1 h
  have hmem : (name, i) ∈ ofNames names := by simp [e]
  exact List.mem_zipIdx_iff_getElem?.1 (List.mem_reverse.1 hmem)

theorem lookup_ofNames_none : (ofNames names).lookup name = none ↔ name ∉ names := by
  rw [List.lookup_eq_none_iff]
  simp only [ofNames, List.mem_reverse]
  constructor
  · intro h hmem
    obtain ⟨i, hi⟩ := List.mem_iff_getElem?.1 hmem
    have := h (name, i) (List.mem_zipIdx_iff_getElem?.2 hi)
    simp at this
  · intro h p hp
    have hmem := List.fst_mem_of_mem_zipIdx hp
    rw [bne_iff_ne]
    rintro rfl
    exact h hmem

/-- Where names are distinct, a name stands for its only position. -/
theorem lookup_ofNames_iff (h : names.Nodup) :
    (ofNames names).lookup name = some i ↔ names[i]? = some name := by
  refine ⟨of_lookup_ofNames, fun hi => ?_⟩
  cases hl : (ofNames names).lookup name with
  | none => exact absurd (List.mem_of_getElem? hi) (lookup_ofNames_none.1 hl)
  | some j =>
    have hj := of_lookup_ofNames hl
    exact congrArg some ((List.getElem?_inj (List.getElem?_eq_some_iff.1 hj).1 h).1 (hj.trans hi.symm))

end NameTable

/-- Positions of equal names are equal, where names are distinct. -/
theorem index_eq_of_nodup {α : Type} {name : α → String} {xs : List α}
    (h : (xs.map name).Nodup) {i j : Nat} {x y : α} (hx : xs[i]? = some x) (hy : xs[j]? = some y)
    (e : name x = name y) : i = j := by
  have hi : (xs.map name)[i]? = some (name x) := by rw [List.getElem?_map, hx]; rfl
  have hj : (xs.map name)[j]? = some (name x) := by rw [List.getElem?_map, hy, e]; rfl
  obtain ⟨hil, -⟩ := List.getElem?_eq_some_iff.1 hi
  exact (List.getElem?_inj hil h).1 (hi.trans hj.symm)

namespace Module

variable {m : Module} {name : String} {i : Nat}

/-- The tables are those of a module to which all its functions and globals were added in order. -/
structure Indexed (m : Module) : Prop where
  functions : m.functionTable = .ofNames (m.functions.map (·.name))
  globals : m.globalTable = .ofNames (m.globals.map (·.name))

theorem functionIndex?_some (hm : m.Indexed) (h : m.functionIndex? name = some i) :
    ∃ f, m.functions[i]? = some f ∧ f.name = name := by
  rw [functionIndex?, hm.functions] at h
  have hi := NameTable.of_lookup_ofNames h
  rw [List.getElem?_map] at hi
  exact Option.map_eq_some_iff.1 hi

theorem functionIndex?_none (hm : m.Indexed) :
    m.functionIndex? name = none ↔ name ∉ m.functions.map (·.name) := by
  rw [functionIndex?, hm.functions, NameTable.lookup_ofNames_none]

theorem functionIndex?_addFunction (m : Module) (other : String) (signature : Signature) :
    (m.addFunction other signature).functionIndex? name =
      if other = name then some m.functions.length else m.functionIndex? name := by
  rw [functionIndex?, addFunction, List.lookup_cons]
  by_cases h : other = name
  · rw [if_pos h, beq_iff_eq.2 h.symm]
  · rw [if_neg h, beq_eq_false_iff_ne.2 (Ne.symm h)]
    rfl

/-- Where names are distinct, a name stands for the one function that carries it. -/
theorem functionIndex?_eq_some_iff (hm : m.Indexed) (h : (m.functions.map (·.name)).Nodup) :
    m.functionIndex? name = some i ↔ ∃ f, m.functions[i]? = some f ∧ f.name = name := by
  rw [functionIndex?, hm.functions, NameTable.lookup_ofNames_iff h, List.getElem?_map,
    Option.map_eq_some_iff]

theorem globalIndex?_none (hm : m.Indexed) :
    m.globalIndex? name = none ↔ name ∉ m.globals.map (·.name) := by
  rw [globalIndex?, hm.globals, NameTable.lookup_ofNames_none]

/-- Where names are distinct, a name stands for the one global that carries it. -/
theorem globalIndex?_eq_some_iff (hm : m.Indexed) (h : (m.globals.map (·.name)).Nodup) :
    m.globalIndex? name = some i ↔ ∃ g, m.globals[i]? = some g ∧ g.name = name := by
  rw [globalIndex?, hm.globals, NameTable.lookup_ofNames_iff h, List.getElem?_map,
    Option.map_eq_some_iff]

theorem Indexed.addFunction (hm : m.Indexed) (name : String) (signature : Signature) :
    (m.addFunction name signature).Indexed := by
  refine ⟨?_, hm.globals⟩
  rw [Module.addFunction, List.map_append, List.map_cons, List.map_nil, NameTable.ofNames_concat,
    List.length_map, hm.functions]

theorem Indexed.addGlobal (hm : m.Indexed) (g : Global) : (m.addGlobal g).Indexed := by
  refine ⟨hm.functions, ?_⟩
  rw [Module.addGlobal, List.map_append, List.map_cons, List.map_nil, NameTable.ofNames_concat,
    List.length_map, hm.globals]

end Module

end SlotIR
