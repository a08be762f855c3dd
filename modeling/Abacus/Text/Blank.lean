import Abacus.Text.Bytes

/-!
# Blank characters

The characters with the Unicode property `White_Space`. A line made of these alone asks for nothing.
-/

namespace Abacus.Text

/-- Ranges of the property `White_Space`, in increasing order. -/
def blankRanges : List (Nat × Nat) :=
  [(0x9, 0xd), (0x20, 0x20), (0x85, 0x85), (0xa0, 0xa0), (0x1680, 0x1680), (0x2000, 0x200a),
    (0x2028, 0x2029), (0x202f, 0x202f), (0x205f, 0x205f), (0x3000, 0x3000)]

def isBlank (c : Char) : Bool :=
  blankRanges.any fun range => range.1 ≤ c.toNat && c.toNat ≤ range.2

def isBlankText (text : List Char) : Bool :=
  text.all isBlank

def dropTrailingBlanks (text : List Char) : List Char :=
  dropTrailing isBlank text

/-- Whether a character ends a line: a line feed or a carriage return. -/
def isLineEnd (c : Char) : Bool :=
  c == '\n' || c == '\r'

/-- The text without the line feeds and carriage returns at its end. -/
def dropLineEnd (text : List Char) : List Char :=
  dropTrailing isLineEnd text

end Abacus.Text
