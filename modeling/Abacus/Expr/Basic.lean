import Abacus.Token.Basic

/-!
# Expressions

An expression is an integer, an integer behind a chain of signs, or two expressions joined by an operator.
Expressions keep the tokens they were read from. Long inputs nest deeply to the left, so everything that
runs over an expression keeps its pending work in a list; the recursive forms beside it say what it computes.
-/

namespace Abacus

/-- An arithmetic expression. The signs of a chain are in source order: the last one is next to the integer. -/
inductive Expr where
  | literal (token : Token)
  | chain (token : Token) (signs : List Token)
  | binary (operator : Token) (left right : Expr)
  deriving DecidableEq, Inhabited

namespace Expr

/-- An integer behind signs; without signs it is a plain literal. -/
def signed (token : Token) (signs : List Token) : Expr :=
  if signs.isEmpty then literal token else chain token signs

/-- The token that heads an expression: the operator of a joined expression, else the integer. -/
def head : Expr → Token
  | literal token => token
  | chain token _ => token
  | binary operator _ _ => operator

def tokens : Expr → List Token
  | literal token => [token]
  | chain token signs => signs ++ [token]
  | binary operator left right => left.tokens ++ operator :: right.tokens

def nodeCount : Expr → Nat
  | literal _ => 1
  | chain _ _ => 1
  | binary _ left right => left.nodeCount + right.nodeCount + 1

end Expr

end Abacus
