import Abacus.Fault
import Abacus.Token.Basic

/-!
# Operators

Operators work on 64-bit values. Sums, differences, products and negation wrap around; a quotient is cut off
toward zero, and there is none by zero.
-/

namespace Abacus

/-- The fault of a token that is no operator where one is needed. -/
def Token.unknownOperator (token : Token) : Fault :=
  ⟨.unknownOperator token.literal, token.position⟩

inductive BinaryOperator where
  | add
  | subtract
  | multiply
  | divide
  deriving DecidableEq, Inhabited

namespace BinaryOperator

def ofKind? : TokenKind → Option BinaryOperator
  | .plus => some add
  | .minus => some subtract
  | .asterisk => some multiply
  | .slash => some divide
  | _ => none

def ofToken (token : Token) : Except Fault BinaryOperator :=
  match ofKind? token.kind with
  | some operator => .ok operator
  | none => .error token.unknownOperator

def result? (operator : BinaryOperator) (left right : Int64) : Option Int64 :=
  match operator with
  | add => some (left + right)
  | subtract => some (left - right)
  | multiply => some (left * right)
  | divide => if right = 0 then none else some (left / right)

end BinaryOperator

inductive UnaryOperator where
  | identity
  | negate
  deriving DecidableEq, Inhabited

namespace UnaryOperator

def ofKind? : TokenKind → Option UnaryOperator
  | .plus => some identity
  | .minus => some negate
  | _ => none

def ofToken (token : Token) : Except Fault UnaryOperator :=
  match ofKind? token.kind with
  | some operator => .ok operator
  | none => .error token.unknownOperator

def result (operator : UnaryOperator) (value : Int64) : Int64 :=
  match operator with
  | identity => value
  | negate => -value

end UnaryOperator

end Abacus
