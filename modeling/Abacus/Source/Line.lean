import Abacus.Source.Position
import Abacus.Text.Blank
import Abacus.Text.Segments

/-!
# Lines of a source

A position is shown to a reader by the line it lies on. A position at or past the end of the source is shown
just behind the last character of the last line, line ends apart.
-/

namespace Abacus

/-- A line of a source, with a column that counts bytes from its start. -/
structure SourceLine where
  number : Nat
  text : List Char
  column : Nat
  deriving DecidableEq

namespace SourceLine

/-- Finds the line of an offset among lines that start at offset `start` with a given number, behind a
line `before` them. -/
def search (offset start number : Nat) (before : List Char) : List (List Char) → SourceLine
  | [] =>
    let text := Text.dropLineEnd before
    ⟨max number 2 - 1, text, Text.byteLength text⟩
  | line :: lines =>
    let stop := start + Text.byteLength line
    if offset < stop then ⟨number, line, offset - start⟩
    else search offset stop (number + 1) line lines

def ofPosition (source : String) (position : Position) : SourceLine :=
  search position.toNat 0 1 [] (Text.segments (· == '\n') source.toList)

end SourceLine

end Abacus
