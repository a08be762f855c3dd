import Abacus.Operator

/-!
# Stack programs

A program is a list of instructions for a machine with a stack of 64-bit values. The instructions take their
operands from the stack and leave their value on it, and the value on top at the end is that of the program.
-/

namespace Abacus

/-- An instruction. An operation knows the position in the source to report when it has no value. -/
inductive Instruction where
  | const (value : Int64)
  | negate
  | binary (operator : BinaryOperator) (position : Position)
  deriving DecidableEq, Inhabited

namespace Instruction

def text : Instruction → String
  | const value => "i64.const " ++ toString value.toInt
  | negate => "i64.neg"
  | binary .add _ => "i64.add"
  | binary .subtract _ => "i64.sub"
  | binary .multiply _ => "i64.mul"
  | binary .divide _ => "i64.div_s"

def position? : Instruction → Option Position
  | const _ => none
  | negate => none
  | binary _ position => some position

/-- The fault of taking a value from an empty stack. -/
def emptyStack : Fault :=
  ⟨.unexpectedEndOfInput, .start⟩

/-- Carries out an instruction on a stack, the top first. -/
def step (stack : List Int64) : Instruction → Except Fault (List Int64)
  | const value => .ok (value :: stack)
  | negate =>
    match stack with
    | value :: stack => .ok (UnaryOperator.negate.result value :: stack)
    | [] => .error emptyStack
  | binary operator position =>
    match stack with
    | right :: left :: stack =>
      match operator.result? left right with
      | some value => .ok (value :: stack)
      | none => .error ⟨.divisionByZero, position⟩
    | _ => .error emptyStack

def stepAll : List Instruction → List Int64 → Except Fault (List Int64)
  | [], stack => .ok stack
  | instruction :: instructions, stack =>
    match instruction.step stack with
    | .ok stack => stepAll instructions stack
    | .error fault => .error fault

end Instruction

structure Program where
  instructions : List Instruction
  deriving DecidableEq, Inhabited

namespace Program

/-- The value that a program leaves on an empty stack. -/
def run (program : Program) : Except Fault Int64 :=
  match Instruction.stepAll program.instructions [] with
  | .ok (value :: _) => .ok value
  | .ok [] => .error Instruction.emptyStack
  | .error fault => .error fault

/-- A program with one instruction on each line. -/
def listing (program : Program) : String :=
  "\n".intercalate (program.instructions.map Instruction.text)

end Program

end Abacus
