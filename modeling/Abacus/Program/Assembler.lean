import Abacus.Expr.Walk
import Abacus.Numeral
import Abacus.Program.Basic

/-!
# Turning expressions into programs

An assembler adds instructions for one expression after another, operands before their operator. A plus sign
needs no instruction. When an expression fails, the instructions added for it so far stay.
-/

namespace Abacus

/-- The instructions added so far, the latest first. -/
structure Assembler where
  emitted : List Instruction

namespace Assembler

def empty : Assembler := ⟨[]⟩

def emit (assembler : Assembler) (instruction : Instruction) : Assembler :=
  ⟨instruction :: assembler.emitted⟩

def addLiteral (assembler : Assembler) (token : Token) : Except Fault Unit × Assembler :=
  match token.value with
  | .ok value => (.ok (), assembler.emit (.const value))
  | .error fault => (.error fault, assembler)

/-- Adds signs, in the order given. -/
def addSigns : List Token → Assembler → Except Fault Unit × Assembler
  | [], assembler => (.ok (), assembler)
  | sign :: signs, assembler =>
    match UnaryOperator.ofToken sign with
    | .ok .identity => addSigns signs assembler
    | .ok .negate => addSigns signs (assembler.emit .negate)
    | .error fault => (.error fault, assembler)

/-- Adds one node, the operands of which have been added before. -/
def addVisit (assembler : Assembler) : Visit → Except Fault Unit × Assembler
  | .literal token => assembler.addLiteral token
  | .chain token signs =>
    match assembler.addLiteral token with
    | (.ok (), assembler) => addSigns signs.reverse assembler
    | (.error fault, assembler) => (.error fault, assembler)
  | .binary token =>
    match BinaryOperator.ofToken token with
    | .ok operator => (.ok (), assembler.emit (.binary operator token.position))
    | .error fault => (.error fault, assembler)

/-- Adds nodes in turn, up to the first that fails. -/
def addVisits : List Visit → Assembler → Except Fault Unit × Assembler
  | [], assembler => (.ok (), assembler)
  | visit :: visits, assembler =>
    match assembler.addVisit visit with
    | (.ok (), assembler) => addVisits visits assembler
    | (.error fault, assembler) => (.error fault, assembler)

def add (assembler : Assembler) (expr : Expr) : Except Fault Unit × Assembler :=
  addVisits expr.visits assembler

def program (assembler : Assembler) : Program :=
  ⟨assembler.emitted.reverse⟩

end Assembler

def Expr.compile (expr : Expr) : Except Fault Program :=
  match Assembler.empty.add expr with
  | (.ok (), assembler) => .ok assembler.program
  | (.error fault, _) => .error fault

end Abacus
