import Abacus.Diagnostic
import Abacus.Expr.Canonical
import Abacus.Expr.Evaluation
import Abacus.Program.Assembler

/-!
# Answering one line

A line is answered with the canonical form of its expression and its value, and on request with the listing of
its program. A fault is answered with its diagnostic. What happens on the way is put on record.
-/

namespace Abacus

structure Options where
  showStack : Bool
  deriving DecidableEq, Inhabited

inductive Level where
  | trace
  | debug
  | error
  deriving DecidableEq, Inhabited

structure Record where
  level : Level
  message : String
  deriving DecidableEq, Inhabited

def Record.ofEvent (event : Parser.Event) : Record :=
  ⟨.trace, event.message⟩

def Record.ofFault (fault : Fault) : Record :=
  ⟨.error, fault.message⟩

def Record.ofLine (line : String) : Record :=
  ⟨.debug, "evaluating " ++ Text.quote line⟩

/-- The canonical form and the value of an expression. -/
def Evaluation.text (evaluation : Evaluation) : String :=
  evaluation.expr.render ++ " = " ++ toString evaluation.value.toInt

/-- The text of an evaluation, with the listing of the program if the options ask for it. -/
def Evaluation.report (options : Options) (evaluation : Evaluation) : Except Fault String :=
  if options.showStack then
    match evaluation.expr.compile with
    | .ok program => .ok (evaluation.text ++ "\n" ++ program.listing)
    | .error fault => .error fault
  else .ok evaluation.text

/-- The answer to a line that has been read as an expression, unless there is a fault. -/
def Parser.Reading.report (options : Options) (reading : Parser.Reading) : Except Fault String :=
  match reading.outcome with
  | .error fault => .error fault
  | .ok expr =>
    match expr.evaluation with
    | .error fault => .error fault
    | .ok evaluation => evaluation.report options

/-- The answer to a line, unless there is a fault. -/
def runLine (options : Options) (line : String) : Except Fault String :=
  (Parser.arithmetic (tokenize line)).report options

/-- What a line is answered with; there is no text when a diagnostic cannot be shown. -/
structure Answer where
  text? : Option String
  records : List Record

/-- Answers a line, with its diagnostic if there is a fault. -/
def renderLine (options : Options) (line : String) : Answer :=
  let reading := Parser.arithmetic (tokenize line)
  let records := reading.events.map Record.ofEvent
  match reading.report options with
  | .ok text => ⟨some text, records⟩
  | .error fault => ⟨Diagnostic.render? fault line, records ++ [.ofFault fault]⟩

end Abacus
