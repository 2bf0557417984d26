/-! # Blank characters

The characters with the Unicode property `White_Space`: they separate the tokens of an expression,
end the name of a tag, and are cut off around tag arguments and section bodies. The property is
kept as a list of ranges; `isBlank_of_isWhitespace` says that it covers the ASCII class of core.
-/

namespace Stencil.Text

/-- The ranges of the property, each given by its first and last code point. -/
def blankRanges : List (Nat × Nat) :=
  [(0x9, 0xD), (0x20, 0x20), (0x85, 0x85), (0xA0, 0xA0), (0x1680, 0x1680), (0x2000, 0x200A),
    (0x2028, 0x2029), (0x202F, 0x202F), (0x205F, 0x205F), (0x3000, 0x3000)]

/-- A character is blank when its code point lies in one of the ranges. -/
def isBlank (c : Char) : Bool :=
  blankRanges.any fun range => range.1 ≤ c.toNat && c.toNat ≤ range.2

/-- The text without the blank characters at both ends. -/
def trim (text : List Char) : List Char :=
  ((text.dropWhile isBlank).reverse.dropWhile isBlank).reverse

/-- A text is blank when nothing is left of it after trimming. -/
def isAllBlank (text : List Char) : Bool :=
  text.all isBlank

theorem isBlank_of_isWhitespace (c : Char) (white : c.isWhitespace = true) : isBlank c = true := by
  simp only [Char.isWhitespace, Bool.or_eq_true, decide_eq_true_eq] at white
  rcases white with ((white | white) | white) | white <;> subst white <;> decide

@[simp] theorem trim_nil : trim [] = [] := rfl

end Stencil.Text
