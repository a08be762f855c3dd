import Abacus.Fault
import Abacus.Source.Line

/-!
# Diagnostics

A fault is shown in four lines: its name and a hint, a margin, the line of source without its indentation,
and a caret under the place that the fault is about. A caret can stand only so far to the right.
-/

namespace Abacus.Diagnostic

def header (cause : Cause) : String :=
  match cause.hint with
  | .none => "Error: " ++ cause.name
  | .suggestion text => "Error: " ++ cause.name ++ " (" ++ text ++ ")"

def isIndent (c : Char) : Bool :=
  c == ' ' || c == '\t'

/-- A text moved to the right end of a field, behind copies of a filling character. -/
def alignRight (fill : Char) (width : Nat) (text : String) : String :=
  String.ofList (List.replicate (width - text.length) fill) ++ text

/-- The widest field that a caret can stand at the end of. -/
def widestCaret : Nat := 65535

/-- Width of the field that the caret stands at the end of: it reaches to the column of the line, of which the
indentation is not shown. -/
def caretWidth (line : SourceLine) : Nat :=
  line.column - (line.text.takeWhile isIndent).length + 1

def shownText (line : SourceLine) : String :=
  String.ofList (Text.dropTrailingBlanks (line.text.dropWhile isIndent))

/-- A fault shown in its source, unless the caret would stand too far to the right. -/
def render? (fault : Fault) (source : String) : Option String :=
  let line := SourceLine.ofPosition source fault.position
  let number := toString line.number
  let margin := alignRight ' ' (number.length + 2) "|"
  if caretWidth line ≤ widestCaret then
    some (header fault.cause ++ "\n" ++ margin ++ "\n" ++ number ++ " | " ++ shownText line ++ "\n" ++ margin
      ++ " " ++ alignRight '-' (caretWidth line) "^")
  else none

end Abacus.Diagnostic
