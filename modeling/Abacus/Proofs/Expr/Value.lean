import Abacus.Expr.Evaluation

/-!
# The value by recursion

`Expr.evaluate` keeps values on a stack along the walk of an expression. `Expr.value` is what it comes to: the
operands are worked out first, the left one before the right one, and the first fault ends the work. The stack
only ever grows by the one value of the expression, so it never lacks an operand.
-/

namespace Abacus

def faultOf {α : Type} : Except Fault α → Option Fault
  | .ok _ => none
  | .error fault => some fault

theorem eq_error_of_faultOf {α : Type} {outcome : Except Fault α} {fault : Fault}
    (h : faultOf outcome = some fault) : outcome = .error fault := by
  cases outcome with
  | ok value => simp [faultOf] at h
  | error other => rw [Option.some.inj h]

theorem exists_eq_ok_of_faultOf {α : Type} {outcome : Except Fault α} (h : faultOf outcome = none) :
    ∃ value, outcome = .ok value := by
  cases outcome with
  | ok value => exact ⟨value, rfl⟩
  | error fault => simp [faultOf] at h

namespace Expr

def value : Expr → Except Fault Int64
  | literal token => token.value
  | chain token signs => token.value.bind (applySigns signs.reverse)
  | binary operator left right =>
    left.value.bind fun leftValue => right.value.bind (applyBinary operator leftValue)

end Expr

namespace Visit

theorem evaluateAll_append (first second : List Visit) (values : List Int64) :
    evaluateAll (first ++ second) values = (evaluateAll first values).bind (evaluateAll second) := by
  induction first generalizing values with
  | nil => rfl
  | cons visit visits ih =>
    simp only [List.cons_append, evaluateAll]
    cases visit.evaluate values with
    | ok values => exact ih values
    | error fault => rfl

theorem evaluateAll_singleton (visit : Visit) (values : List Int64) :
    evaluateAll [visit] values = visit.evaluate values := by
  simp only [evaluateAll]
  cases visit.evaluate values <;> rfl

/-- Working out an expression puts its value on the stack and leaves what lies below. -/
theorem evaluateAll_postOrder (expr : Expr) (values : List Int64) :
    evaluateAll expr.postOrder values = expr.value.map (· :: values) := by
  induction expr generalizing values with
  | literal token =>
    rw [Expr.postOrder, evaluateAll_singleton, evaluate, Expr.value]
    cases token.value <;> rfl
  | chain token signs =>
    rw [Expr.postOrder, evaluateAll_singleton, evaluate, Expr.value]
    cases token.value with
    | error fault => rfl
    | ok value =>
      simp only [Except.bind]
      cases applySigns signs.reverse value <;> rfl
  | binary operator left right ihleft ihright =>
    rw [Expr.postOrder, evaluateAll_append, evaluateAll_append, ihleft, Expr.value]
    cases left.value with
    | error fault => rfl
    | ok leftValue =>
      simp only [Except.map, Except.bind, ihright]
      cases right.value with
      | error fault => rfl
      | ok rightValue =>
        simp only [evaluateAll_singleton, evaluate]
        cases applyBinary operator leftValue rightValue <;> rfl

end Visit

namespace Expr

theorem evaluate_eq_value (expr : Expr) : expr.evaluate = expr.value := by
  rw [evaluate, visits_eq_postOrder, Visit.evaluateAll_postOrder]
  cases expr.value <;> rfl

theorem value_binary_of_ok {operator : Token} {left right : Expr} {leftValue rightValue : Int64}
    (hleft : left.value = .ok leftValue) (hright : right.value = .ok rightValue) :
    (binary operator left right).value = applyBinary operator leftValue rightValue := by
  simp only [value, hleft, hright, Except.bind]

theorem value_binary_of_left_error {operator : Token} {left right : Expr} {fault : Fault}
    (hleft : left.value = .error fault) : (binary operator left right).value = .error fault := by
  simp only [value, hleft, Except.bind]

theorem value_binary_of_right_error {operator : Token} {left right : Expr} {leftValue : Int64} {fault : Fault}
    (hleft : left.value = .ok leftValue) (hright : right.value = .error fault) :
    (binary operator left right).value = .error fault := by
  simp only [value, hleft, hright, Except.bind]

end Expr

end Abacus
