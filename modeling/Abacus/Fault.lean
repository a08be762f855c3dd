import Abacus.Source.Position
import Abacus.Text.Quoted

/-!
# Faults

A fault ends the work on one input. It has a cause and the position in the source that it is about.
-/

namespace Abacus

inductive Cause where
  | illegalToken (literal : String)
  | unexpectedEndOfInput
  | invalidLiteral (literal : String)
  | divisionByZero
  | unknownOperator (literal : String)
  deriving DecidableEq, Inhabited

inductive Hint where
  | none
  | suggestion (text : String)
  deriving DecidableEq, Inhabited

def Hint.text : Hint → String
  | none => ""
  | suggestion text => text

namespace Cause

/-- The name of a cause in a diagnostic. -/
def name : Cause → String
  | illegalToken _ => "IllegalToken"
  | unexpectedEndOfInput => "UnexpectedEndOfInput"
  | invalidLiteral _ => "InvalidLiteral"
  | divisionByZero => "DivisionByZero"
  | unknownOperator _ => "UnknownOperator"

def phrase : Cause → String
  | illegalToken literal => "illegal token: " ++ Text.quote literal
  | unexpectedEndOfInput => "unexpected end of input"
  | invalidLiteral literal => "invalid integer literal: " ++ Text.quote literal
  | divisionByZero => "division by zero"
  | unknownOperator literal => "unknown operator: " ++ Text.quote literal

def hint : Cause → Hint
  | illegalToken literal =>
    .suggestion ("Unexpected token: `" ++ literal ++ "`, expected an integer or an operator")
  | unexpectedEndOfInput => .suggestion "Input ended while an operand was still expected"
  | invalidLiteral literal =>
    .suggestion ("Invalid integer: `" ++ literal ++ "`, is it above the integer limit?")
  | divisionByZero => .suggestion "Division by zero, the right operand evaluated to 0"
  | unknownOperator literal => .suggestion ("Operator `" ++ literal ++ "` cannot be applied here")

end Cause

structure Fault where
  cause : Cause
  position : Position
  deriving DecidableEq, Inhabited

def Fault.message (fault : Fault) : String :=
  fault.cause.phrase ++ " at position " ++ toString fault.position.toNat

end Abacus
