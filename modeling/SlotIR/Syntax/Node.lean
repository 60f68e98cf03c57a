import SlotIR.Syntax.Kind

/-!
# Syntax trees

A node is a kind, an optional leaf text, an optional source span and its children in order. Spans
only locate errors: two trees of the same shape are the same tree.
-/

namespace SlotIR.Syntax

/-- A byte range of the source that a tree was parsed from. -/
structure Span where
  start : Nat
  stop : Nat
deriving DecidableEq, Repr, Inhabited

/-- A node of a syntax tree. -/
inductive Node where
  | mk (kind : Kind) (value : Option String) (span : Option Span) (children : List Node)
deriving Repr

instance : Inhabited Node := ⟨.mk .translationUnit none none []⟩

namespace Node

def kind : Node → Kind
  | mk k _ _ _ => k

/-- The text of a leaf, if the node has one. -/
def value : Node → Option String
  | mk _ v _ _ => v

def span : Node → Option Span
  | mk _ _ s _ => s

def children : Node → List Node
  | mk _ _ _ cs => cs

/-- The leaf text, empty for a node without one. -/
def text (n : Node) : String :=
  n.value.getD ""

/-- The first direct child of a kind. -/
def child? (n : Node) (k : Kind) : Option Node :=
  n.children.find? (·.kind == k)

/-- The child at a position. -/
def nth? (n : Node) (i : Nat) : Option Node :=
  n.children[i]?

/-- The span of a node, or else the one given. -/
def spanOr (n : Node) (other : Option Span) : Option Span :=
  n.span <|> other

mutual

/-- The number of nodes on the longest path from a node to a leaf. -/
def height : Node → Nat
  | mk _ _ _ cs => heightAll cs + 1

/-- The greatest height in a list of nodes. -/
def heightAll : List Node → Nat
  | [] => 0
  | n :: ns => max n.height (heightAll ns)

end

mutual

/-- Whether two trees have the same kinds, texts and children, whatever their spans. -/
def sameShape : Node → Node → Bool
  | mk k v _ cs, mk k' v' _ cs' => k == k' && v == v' && sameShapeAll cs cs'

/-- Whether two lists of trees have the same shapes in the same order. -/
def sameShapeAll : List Node → List Node → Bool
  | [], [] => true
  | n :: ns, m :: ms => sameShape n m && sameShapeAll ns ms
  | _, _ => false

end

theorem height_lt_of_mem {n : Node} {c : Node} (h : c ∈ n.children) : c.height < n.height := by
  obtain ⟨k, v, s, cs⟩ := n
  have key : ∀ ns : List Node, c ∈ ns → c.height ≤ heightAll ns := by
    intro ns
    induction ns with
    | nil => intro h; cases h
    | cons n ns ih =>
      intro h
      rw [heightAll]
      rcases List.mem_cons.1 h with rfl | h
      · exact Nat.le_max_left ..
      · exact Nat.le_trans (ih h) (Nat.le_max_right ..)
  rw [height]
  exact Nat.lt_succ_of_le (key cs h)

end Node

end SlotIR.Syntax
