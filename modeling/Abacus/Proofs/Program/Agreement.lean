import Abacus.Program.Assembler
import Abacus.Proofs.Expr.Value

/-!
# Programs agree with values

A program is checked while it is assembled, and divides only when it is run; working out an expression does both
node by node. The two therefore agree on the value, but on an expression with several faults they may meet a
different one first. Both orders are read off one list, the nodes of the expression in the order of a walk: the
assembler stops at the first node that it refuses, and the evaluation at the first node that is refused or
divides by zero.
-/

namespace Abacus

namespace Expr

def visit : Expr → Visit
  | literal token => .literal token
  | chain token signs => .chain token signs
  | binary operator _ _ => .binary operator

/-- The nodes of an expression in the order of a walk, each with the operands below it. -/
def nodes : Expr → List Expr
  | literal token => [literal token]
  | chain token signs => [chain token signs]
  | binary operator left right => left.nodes ++ right.nodes ++ [binary operator left right]

theorem map_visit_nodes (expr : Expr) : expr.nodes.map visit = expr.postOrder := by
  induction expr with
  | literal token => rfl
  | chain token signs => rfl
  | binary operator left right ihleft ihright =>
    simp [nodes, postOrder, visit, ihleft, ihright]

/-- The fault with which an assembler refuses a node, its operands apart. -/
def refusal? (node : Expr) : Option Fault :=
  faultOf (Assembler.empty.addVisit node.visit).1

def DividesByZero : Expr → Prop
  | binary operator _ divisor => operator.kind = .slash ∧ divisor.evaluate = .ok 0
  | _ => False

def zeroDivision? : Expr → Option Fault
  | binary operator _ divisor =>
    match operator.kind, divisor.evaluate with
    | .slash, .ok value => if value = 0 then some ⟨.divisionByZero, operator.position⟩ else none
    | _, _ => none
  | _ => none

theorem zeroDivision?_of_dividesByZero {node : Expr} (h : node.DividesByZero) :
    node.zeroDivision? = some ⟨.divisionByZero, node.head.position⟩ := by
  cases node with
  | literal token => exact absurd h id
  | chain token signs => exact absurd h id
  | binary operator dividend divisor =>
    obtain ⟨hslash, hzero⟩ := h
    simp [zeroDivision?, hslash, hzero, head]

theorem zeroDivision?_of_not_dividesByZero {node : Expr} (h : ¬ node.DividesByZero) :
    node.zeroDivision? = none := by
  cases node with
  | literal token => rfl
  | chain token signs => rfl
  | binary operator dividend divisor =>
    simp only [zeroDivision?]
    split
    · rename_i value hslash hvalue
      apply if_neg
      intro hzero
      apply h
      refine ⟨hslash, ?_⟩
      rw [hvalue, hzero]
    · rfl

end Expr

/-! ### The fault of assembling

What has been added before never decides whether a node is refused. -/

namespace Assembler

theorem faultOf_addSigns (signs : List Token) (value : Int64) (assembler : Assembler) :
    faultOf (addSigns signs assembler).1 = faultOf (applySigns signs value) := by
  induction signs generalizing value assembler with
  | nil => rfl
  | cons sign signs ih =>
    rw [addSigns, applySigns]
    cases UnaryOperator.ofToken sign with
    | error fault => rfl
    | ok operator =>
      cases operator with
      | identity => exact ih _ _
      | negate => exact ih _ _

theorem addLiteral_of_ok {token : Token} {value : Int64} (h : token.value = .ok value)
    (assembler : Assembler) : assembler.addLiteral token = (.ok (), assembler.emit (.const value)) := by
  simp only [addLiteral, h]

theorem addLiteral_of_error {token : Token} {fault : Fault} (h : token.value = .error fault)
    (assembler : Assembler) : assembler.addLiteral token = (.error fault, assembler) := by
  simp only [addLiteral, h]

theorem faultOf_addVisit_chain (token : Token) (signs : List Token) (assembler : Assembler) :
    faultOf (assembler.addVisit (.chain token signs)).1 =
      faultOf (token.value.bind (applySigns signs.reverse)) := by
  cases hvalue : token.value with
  | error fault => simp only [addVisit, addLiteral_of_error hvalue, Except.bind, faultOf]
  | ok value =>
    simp only [addVisit, addLiteral_of_ok hvalue, Except.bind]
    exact faultOf_addSigns signs.reverse value _

theorem faultOf_addVisit (visit : Visit) (assembler : Assembler) :
    faultOf (assembler.addVisit visit).1 = faultOf (empty.addVisit visit).1 := by
  cases visit with
  | literal token =>
    cases hvalue : token.value with
    | error fault => simp only [addVisit, addLiteral_of_error hvalue]
    | ok value => simp only [addVisit, addLiteral_of_ok hvalue]
  | chain token signs => rw [faultOf_addVisit_chain, faultOf_addVisit_chain]
  | binary operator =>
    simp only [addVisit]
    cases BinaryOperator.ofToken operator <;> rfl

theorem faultOf_addVisits (visits : List Visit) (assembler : Assembler) :
    faultOf (addVisits visits assembler).1 =
      visits.findSome? fun visit => faultOf (empty.addVisit visit).1 := by
  induction visits generalizing assembler with
  | nil => rfl
  | cons visit visits ih =>
    rw [addVisits, List.findSome?_cons, ← faultOf_addVisit visit assembler]
    rcases assembler.addVisit visit with ⟨outcome, next⟩
    cases outcome with
    | ok _ => exact ih next
    | error fault => rfl

end Assembler

namespace Expr

theorem faultOf_compile (expr : Expr) : faultOf expr.compile = expr.nodes.findSome? refusal? := by
  have hvisits := Assembler.faultOf_addVisits expr.visits Assembler.empty
  rw [visits_eq_postOrder, ← map_visit_nodes, List.findSome?_map] at hvisits
  rw [show expr.nodes.findSome? refusal? = _ from hvisits.symm, compile, Assembler.add,
    visits_eq_postOrder, ← map_visit_nodes]
  rcases Assembler.addVisits (expr.nodes.map visit) Assembler.empty with ⟨outcome, assembler⟩
  cases outcome <;> rfl

/-! ### The fault of working out -/

theorem faultOf_applyBinary (operator : Token) (left right : Expr) {leftValue rightValue : Int64}
    (hright : right.value = .ok rightValue) :
    faultOf (applyBinary operator leftValue rightValue) =
      (refusal? (binary operator left right)).or (zeroDivision? (binary operator left right)) := by
  have hevaluate : right.evaluate = .ok rightValue := by rw [evaluate_eq_value, hright]
  rcases operator with ⟨kind, literal, span⟩
  cases kind <;>
    simp only [applyBinary, refusal?, visit, Assembler.addVisit, BinaryOperator.ofToken,
      BinaryOperator.ofKind?, BinaryOperator.result?, zeroDivision?, hevaluate, faultOf,
      Option.some_or, Option.none_or]
  by_cases hzero : rightValue = 0
  · simp [hzero, Token.position]
  · simp [hzero]

/-- Working out an expression fails exactly at the first node that is refused or divides by zero. -/
theorem faultOf_value (expr : Expr) :
    faultOf expr.value = expr.nodes.findSome? fun node => node.refusal?.or node.zeroDivision? := by
  induction expr with
  | literal token =>
    simp only [nodes, List.findSome?_singleton, value, refusal?, visit, Assembler.addVisit,
      Assembler.addLiteral, zeroDivision?, Option.or_none]
    cases token.value <;> rfl
  | chain token signs =>
    simp only [nodes, List.findSome?_singleton, value, zeroDivision?, Option.or_none]
    exact (Assembler.faultOf_addVisit_chain token signs Assembler.empty).symm
  | binary operator left right ihleft ihright =>
    simp only [nodes, List.findSome?_append, List.findSome?_singleton, ← ihleft, ← ihright]
    cases hleft : left.value with
    | error fault => simp [value_binary_of_left_error hleft, faultOf]
    | ok leftValue =>
      cases hright : right.value with
      | error fault => simp [value_binary_of_right_error hleft hright, faultOf]
      | ok rightValue =>
        rw [value_binary_of_ok hleft hright, faultOf_applyBinary operator left right hright]
        rfl

end Expr

/-! ### Running what was assembled -/

namespace Instruction

theorem stepAll_append (first second : List Instruction) (stack : List Int64) :
    stepAll (first ++ second) stack = (stepAll first stack).bind (stepAll second) := by
  induction first generalizing stack with
  | nil => rfl
  | cons instruction instructions ih =>
    simp only [List.cons_append, stepAll]
    cases instruction.step stack with
    | ok stack => exact ih stack
    | error fault => rfl

theorem stepAll_singleton (instruction : Instruction) (stack : List Int64) :
    stepAll [instruction] stack = instruction.step stack := by
  simp only [stepAll]
  cases instruction.step stack <;> rfl

end Instruction

namespace Assembler

/-- The instructions `code` have been added between two assemblers. -/
def Adds (before after : Assembler) (code : List Instruction) : Prop :=
  after.emitted = code.reverse ++ before.emitted

theorem Adds.trans {before middle after : Assembler} {first second : List Instruction}
    (hfirst : Adds before middle first) (hsecond : Adds middle after second) :
    Adds before after (first ++ second) := by
  unfold Adds at *
  rw [hsecond, hfirst, List.reverse_append, List.append_assoc]

theorem adds_emit (assembler : Assembler) (instruction : Instruction) :
    Adds assembler (assembler.emit instruction) [instruction] := rfl

theorem addVisits_append_eq_ok {first second : List Visit} {before after : Assembler}
    (h : addVisits (first ++ second) before = (.ok (), after)) :
    ∃ middle, addVisits first before = (.ok (), middle) ∧ addVisits second middle = (.ok (), after) := by
  induction first generalizing before with
  | nil => exact ⟨before, rfl, h⟩
  | cons visit visits ih =>
    simp only [List.cons_append, addVisits] at h ⊢
    rcases hvisit : before.addVisit visit with ⟨outcome, next⟩
    rw [hvisit] at h
    cases outcome with
    | ok _ => exact ih h
    | error fault => simp at h

theorem addVisits_singleton_eq_ok {visit : Visit} {before after : Assembler}
    (h : addVisits [visit] before = (.ok (), after)) : before.addVisit visit = (.ok (), after) := by
  simp only [addVisits] at h
  rcases hvisit : before.addVisit visit with ⟨outcome, next⟩
  rw [hvisit] at h
  cases outcome with
  | ok _ => exact h
  | error fault => simp at h

/-- A plus sign adds nothing and applying it changes nothing, so the code of signs applies them. -/
theorem exists_code_of_addSigns {signs : List Token} {before after : Assembler}
    (h : addSigns signs before = (.ok (), after)) :
    ∃ code, Adds before after code ∧ ∀ value stack,
      Instruction.stepAll code (value :: stack) = (applySigns signs value).map (· :: stack) := by
  induction signs generalizing before with
  | nil =>
    obtain ⟨-, rfl⟩ := Prod.mk.inj h
    exact ⟨[], rfl, fun value stack => rfl⟩
  | cons sign signs ih =>
    rw [addSigns] at h
    cases hoperator : UnaryOperator.ofToken sign with
    | error fault => simp [hoperator] at h
    | ok operator =>
      cases operator with
      | identity =>
        simp only [hoperator] at h
        obtain ⟨code, hadds, hcode⟩ := ih h
        refine ⟨code, hadds, ?_⟩
        intro value stack
        rw [hcode, applySigns, hoperator]
        rfl
      | negate =>
        simp only [hoperator] at h
        obtain ⟨code, hadds, hcode⟩ := ih h
        refine ⟨.negate :: code, (adds_emit before .negate).trans hadds, ?_⟩
        intro value stack
        rw [applySigns, hoperator]
        exact hcode _ stack

theorem exists_code_of_addLiteral {token : Token} {before after : Assembler}
    (h : before.addLiteral token = (.ok (), after)) :
    ∃ value, token.value = .ok value ∧ Adds before after [.const value] := by
  cases hvalue : token.value with
  | error fault => simp [addLiteral_of_error hvalue] at h
  | ok value =>
    rw [addLiteral_of_ok hvalue] at h
    obtain ⟨-, rfl⟩ := Prod.mk.inj h
    exact ⟨value, rfl, adds_emit before _⟩

/-- The code of an expression puts its value on any stack, or fails as working the expression out does. -/
theorem exists_code_of_addVisits {expr : Expr} {before after : Assembler}
    (h : addVisits expr.postOrder before = (.ok (), after)) :
    ∃ code, Adds before after code ∧ ∀ stack,
      Instruction.stepAll code stack = expr.value.map (· :: stack) := by
  induction expr generalizing before after with
  | literal token =>
    obtain ⟨value, hvalue, hadds⟩ := exists_code_of_addLiteral (addVisits_singleton_eq_ok h)
    refine ⟨_, hadds, ?_⟩
    intro stack
    rw [Expr.value, hvalue]
    rfl
  | chain token signs =>
    have hchain := addVisits_singleton_eq_ok h
    simp only [addVisit] at hchain
    rcases hliteral : before.addLiteral token with ⟨outcome, middle⟩
    rw [hliteral] at hchain
    cases outcome with
    | error fault => simp at hchain
    | ok _ =>
      obtain ⟨value, hvalue, hconst⟩ := exists_code_of_addLiteral hliteral
      obtain ⟨code, hsigns, hcode⟩ := exists_code_of_addSigns hchain
      refine ⟨_, hconst.trans hsigns, ?_⟩
      intro stack
      rw [Expr.value, hvalue]
      exact hcode value stack
  | binary operator left right ihleft ihright =>
    obtain ⟨middle, hoperands, hoperator⟩ := addVisits_append_eq_ok h
    obtain ⟨inner, hleft, hright⟩ := addVisits_append_eq_ok hoperands
    obtain ⟨leftCode, hleftAdds, hleftCode⟩ := ihleft hleft
    obtain ⟨rightCode, hrightAdds, hrightCode⟩ := ihright hright
    have hbinary := addVisits_singleton_eq_ok hoperator
    simp only [addVisit] at hbinary
    cases hof : BinaryOperator.ofToken operator with
    | error fault => simp [hof] at hbinary
    | ok binary =>
      simp only [hof, Prod.mk.injEq, true_and] at hbinary
      subst hbinary
      refine ⟨_, (hleftAdds.trans hrightAdds).trans (adds_emit middle _), ?_⟩
      intro stack
      rw [Instruction.stepAll_append, Instruction.stepAll_append, hleftCode, Expr.value]
      cases left.value with
      | error fault => rfl
      | ok leftValue =>
        simp only [Except.map, Except.bind, hrightCode]
        cases right.value with
        | error fault => rfl
        | ok rightValue =>
          simp only [Instruction.stepAll_singleton, Instruction.step, applyBinary, hof]
          cases binary.result? leftValue rightValue <;> rfl

end Assembler

namespace Expr

theorem run_of_compile_eq_ok {expr : Expr} {program : Program} (h : expr.compile = .ok program) :
    program.run = expr.evaluate := by
  rw [compile, Assembler.add, visits_eq_postOrder] at h
  rcases hadd : Assembler.addVisits expr.postOrder Assembler.empty with ⟨outcome, assembler⟩
  rw [hadd] at h
  cases outcome with
  | error fault => simp at h
  | ok _ =>
    obtain ⟨code, hadds, hcode⟩ := Assembler.exists_code_of_addVisits hadd
    have hprogram : program.instructions = code := by
      rw [← Except.ok.inj h, Assembler.program, show assembler.emitted = _ from hadds]
      simp [Assembler.empty]
    rw [Program.run, hprogram, hcode, evaluate_eq_value]
    cases expr.value <;> rfl

/-- **Assembling against working out.** A program has the value of its expression. Where no program is made,
the expression has no value either: it fails at the refused node, unless a division by zero comes first. -/
theorem compile_run_agrees_evaluate (expr : Expr) :
    (∀ program, expr.compile = .ok program → program.run = expr.evaluate) ∧
    (∀ fault, expr.compile = .error fault →
      ∃ before node after, expr.nodes = before ++ node :: after ∧
        (∀ earlier ∈ before, earlier.refusal? = none) ∧ node.refusal? = some fault ∧
        ((∀ earlier ∈ before, ¬ earlier.DividesByZero) → expr.evaluate = .error fault) ∧
        (∀ passed division others, before = passed ++ division :: others →
          (∀ earlier ∈ passed, ¬ earlier.DividesByZero) → division.DividesByZero →
          expr.evaluate = .error ⟨.divisionByZero, division.head.position⟩)) ∧
    (∀ value, expr.evaluate = .ok value →
      ∃ program, expr.compile = .ok program ∧ program.run = .ok value) := by
  refine ⟨?_, ?_, ?_⟩
  · intro program hcompile
    exact run_of_compile_eq_ok hcompile
  · intro fault hcompile
    have hrefused : expr.nodes.findSome? refusal? = some fault := by
      rw [← faultOf_compile, hcompile]
      rfl
    obtain ⟨before, node, after, hnodes, hnode, hbefore⟩ := List.findSome?_eq_some_iff.mp hrefused
    refine ⟨before, node, after, hnodes, hbefore, hnode, ?_, ?_⟩
    · intro hclean
      rw [evaluate_eq_value]
      apply eq_error_of_faultOf
      rw [faultOf_value, hnodes]
      refine List.findSome?_eq_some_iff.mpr ⟨before, node, after, rfl, by rw [hnode]; rfl, ?_⟩
      intro earlier hmem
      rw [hbefore earlier hmem, zeroDivision?_of_not_dividesByZero (hclean earlier hmem)]
      rfl
    · intro passed division others hsplit hpassed hdivision
      have hmem : ∀ earlier ∈ passed, earlier ∈ before := by
        intro earlier hearlier
        rw [hsplit]
        exact List.mem_append_left _ hearlier
      have hdivisionMem : division ∈ before := by
        rw [hsplit]
        exact List.mem_append_right _ List.mem_cons_self
      rw [evaluate_eq_value]
      apply eq_error_of_faultOf
      rw [faultOf_value, hnodes, hsplit, List.append_assoc, List.cons_append]
      refine List.findSome?_eq_some_iff.mpr ⟨passed, division, _, rfl, ?_, ?_⟩
      · rw [hbefore division hdivisionMem, zeroDivision?_of_dividesByZero hdivision]
        rfl
      · intro earlier hearlier
        rw [hbefore earlier (hmem earlier hearlier),
          zeroDivision?_of_not_dividesByZero (hpassed earlier hearlier)]
        rfl
  · intro value hvalue
    have hfault : faultOf expr.value = none := by
      rw [← evaluate_eq_value, hvalue]
      rfl
    rw [faultOf_value, List.findSome?_eq_none_iff] at hfault
    have hcompile : faultOf expr.compile = none := by
      rw [faultOf_compile, List.findSome?_eq_none_iff]
      intro node hmem
      exact (Option.or_eq_none_iff.mp (hfault node hmem)).1
    obtain ⟨program, hprogram⟩ := exists_eq_ok_of_faultOf hcompile
    exact ⟨program, hprogram, by rw [run_of_compile_eq_ok hprogram, hvalue]⟩

end Expr

end Abacus
