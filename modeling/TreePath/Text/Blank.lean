import TreePath.Text.Property

/-!
# Blank code points

The code points with the Unicode property White_Space, and the four information separators U+001C to U+001F.
-/

namespace TreePath

/-- Where blankness changes. -/
def blankChanges : List Nat :=
  [0x9, 0xE, 0x1C, 0x21, 0x85, 0x86, 0xA0, 0xA1, 0x1680, 0x1681, 0x2000, 0x200B, 0x2028, 0x202A, 0x202F, 0x2030,
   0x205F, 0x2060, 0x3000, 0x3001]

def CodePoint.isBlank (c : CodePoint) : Bool := holdsAt c.val false blankChanges

/-- A text with nothing but blanks in it, which may be empty. -/
def Text.isBlank (s : Text) : Bool := s.all CodePoint.isBlank

end TreePath
