/-!
# White space

The code points with the Unicode property `White_Space`. Numeric text may start with any run of
them.
-/

namespace SlotIR.Text

/-- The ranges of the property `White_Space`, both ends included, in increasing order. -/
def blankRanges : List (Nat × Nat) :=
  [(0x09, 0x0D), (0x20, 0x20), (0x85, 0x85), (0xA0, 0xA0), (0x1680, 0x1680), (0x2000, 0x200A),
   (0x2028, 0x2029), (0x202F, 0x202F), (0x205F, 0x205F), (0x3000, 0x3000)]

/-- Whether a character is white space. -/
def isBlank (c : Char) : Bool :=
  blankRanges.any fun (lo, hi) => lo ≤ c.toNat && c.toNat ≤ hi

/-- A text without its leading white space. -/
def dropBlanks (cs : List Char) : List Char :=
  cs.dropWhile isBlank

end SlotIR.Text
