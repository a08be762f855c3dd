import Abacus.Token.Basic

/-!
# Grammars

A grammar says which kinds of tokens join two operands, how strongly they bind, and which kinds of tokens
start an operand. The grammar of arithmetic lets `*` and `/` bind stronger than `+` and `-`, and starts an
operand with an integer or a sign.
-/

namespace Abacus

/-- How strongly an operator holds its operands; `lowest` is for tokens that join nothing. -/
inductive BindingPower where
  | lowest
  | additive
  | multiplicative
  deriving DecidableEq, Inhabited

def BindingPower.rank : BindingPower → Nat
  | lowest => 0
  | additive => 1
  | multiplicative => 2

/-- How an operand is read from its first token on: as one integer, or as an integer behind signs. -/
inductive OperandRule where
  | integer
  | signed
  deriving DecidableEq, Inhabited

/-- The kinds of tokens that join operands, and those that start one. -/
structure Grammar where
  power? : TokenKind → Option BindingPower
  rule? : TokenKind → Option OperandRule

namespace Grammar

def empty : Grammar :=
  ⟨fun _ => none, fun _ => none⟩

/-- How strongly a kind of token binds; a kind that is no operator binds at the lowest power. -/
def power (grammar : Grammar) (kind : TokenKind) : BindingPower :=
  (grammar.power? kind).getD .lowest

def setPower (grammar : Grammar) (kind : TokenKind) (power : BindingPower) : Grammar :=
  { grammar with power? := fun other => if other = kind then some power else grammar.power? other }

def setRule (grammar : Grammar) (kind : TokenKind) (rule : OperandRule) : Grammar :=
  { grammar with rule? := fun other => if other = kind then some rule else grammar.rule? other }

def addArithmetic (grammar : Grammar) : Grammar :=
  grammar
    |>.setPower .plus .additive
    |>.setPower .minus .additive
    |>.setPower .asterisk .multiplicative
    |>.setPower .slash .multiplicative
    |>.setRule .integer .integer
    |>.setRule .plus .signed
    |>.setRule .minus .signed

def arithmetic : Grammar :=
  empty.addArithmetic

end Grammar

end Abacus
