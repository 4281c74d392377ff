/-! Classes of characters, given by ranges of code points. -/

namespace LiveEdit

structure CharClass where
  /-- The first and the last code point of each range. -/
  ranges : List (Nat × Nat)
  deriving DecidableEq, Repr

namespace CharClass

def contains (k : CharClass) (c : Char) : Bool :=
  k.ranges.any fun (first, last) => first ≤ c.toNat && c.toNat ≤ last

/-- White space in all scripts. -/
def blank : CharClass :=
  ⟨[(0x9, 0xd), (0x20, 0x20), (0x85, 0x85), (0xa0, 0xa0), (0x1680, 0x1680), (0x2000, 0x200a),
    (0x2028, 0x2029), (0x202f, 0x202f), (0x205f, 0x205f), (0x3000, 0x3000)]⟩

end CharClass

/-- A text without the blanks at its front and at its end. -/
def trimmed (cs : List Char) : List Char :=
  ((cs.dropWhile CharClass.blank.contains).reverse.dropWhile CharClass.blank.contains).reverse

end LiveEdit
