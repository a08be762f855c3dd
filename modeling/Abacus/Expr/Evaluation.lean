import Abacus.Expr.Parser
import Abacus.Expr.Walk
import Abacus.Numeral
import Abacus.Operator
import Abacus.Token.Lexer

/-!
# Values of expressions

An expression is worked out along its walk, with the values of finished operands on a stack, the latest first.
The first node that fails ends the work.
-/

namespace Abacus

/-- Applies signs to a value, in the order given. -/
def applySigns : List Token → Int64 → Except Fault Int64
  | [], value => .ok value
  | sign :: signs, value =>
    match UnaryOperator.ofToken sign with
    | .ok operator => applySigns signs (operator.result value)
    | .error fault => .error fault

def applyBinary (token : Token) (left right : Int64) : Except Fault Int64 :=
  match BinaryOperator.ofToken token with
  | .error fault => .error fault
  | .ok operator =>
    match operator.result? left right with
    | some value => .ok value
    | none => .error ⟨.divisionByZero, token.position⟩

/-- Works out one node on top of the values of its operands. -/
def Visit.evaluate (values : List Int64) : Visit → Except Fault (List Int64)
  | .literal token =>
    match token.value with
    | .ok value => .ok (value :: values)
    | .error fault => .error fault
  | .chain token signs =>
    match token.value with
    | .error fault => .error fault
    | .ok value =>
      match applySigns signs.reverse value with
      | .ok value => .ok (value :: values)
      | .error fault => .error fault
  | .binary operator =>
    match values with
    | right :: left :: values =>
      match applyBinary operator left right with
      | .ok value => .ok (value :: values)
      | .error fault => .error fault
    | _ => .error ⟨.unexpectedEndOfInput, operator.position⟩

def Visit.evaluateAll : List Visit → List Int64 → Except Fault (List Int64)
  | [], values => .ok values
  | visit :: visits, values =>
    match visit.evaluate values with
    | .ok values => evaluateAll visits values
    | .error fault => .error fault

def Expr.evaluate (expr : Expr) : Except Fault Int64 :=
  match Visit.evaluateAll expr.visits [] with
  | .ok (value :: _) => .ok value
  | .ok [] => .error ⟨.unexpectedEndOfInput, expr.head.position⟩
  | .error fault => .error fault

structure Evaluation where
  expr : Expr
  value : Int64
  deriving DecidableEq

def Expr.evaluation (expr : Expr) : Except Fault Evaluation :=
  match expr.evaluate with
  | .ok value => .ok ⟨expr, value⟩
  | .error fault => .error fault

/-- The expression that a source spells, and its value. -/
def interpret (source : String) : Except Fault Evaluation :=
  match Expr.parse (tokenize source) with
  | .ok expr => expr.evaluation
  | .error fault => .error fault

/-- Whether two sources came to the same end: the same expression and value, or the same fault. -/
def Evaluation.sameOutcome : Except Fault Evaluation → Except Fault Evaluation → Bool
  | .ok left, .ok right => left.expr.same right.expr && left.value == right.value
  | .error left, .error right => left == right
  | _, _ => false

end Abacus
