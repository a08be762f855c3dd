import Abacus.Proofs.Expr.Value
import Mathlib.Order.Basic

/-!
# The outcome of an expression

What an expression comes to can be said rule by rule, without a walk and without a stack: the left operand comes before
the right one, both come before their operator, and the first fault is the outcome. Every expression has exactly one
outcome by these rules, and working along the walk ends with it. The fault of a missing operand is in none of the rules.
It could only come from the stack, and there is no moment of a walk at which the stack is too low.
-/

namespace Abacus

/-- The tokens that may stand before an integer. -/
def Token.IsPlusOrMinus (token : Token) : Prop :=
  token.kind = .plus ∨ token.kind = .minus

def Token.signValue (sign : Token) (value : Int64) : Int64 :=
  if sign.kind = .minus then -value else value

/-- What an expression comes to. The sign next to the integer is applied first. -/
inductive Expr.Yields : Expr → Except Fault Int64 → Prop
  | literal (token : Token) : Yields (.literal token) token.value
  | unreadable {token : Token} {fault : Fault} (h : token.value = .error fault) (signs : List Token) :
      Yields (.chain token signs) (.error fault)
  | unknownSign {token sign : Token} {value : Int64} {inner : List Token} (h : token.value = .ok value)
      (outer : List Token) (hsign : ¬ sign.IsPlusOrMinus) (hinner : ∀ other ∈ inner, other.IsPlusOrMinus) :
      Yields (.chain token (outer ++ sign :: inner)) (.error ⟨.unknownOperator sign.literal, sign.position⟩)
  | chain {token : Token} {value : Int64} {signs : List Token} (h : token.value = .ok value)
      (hsigns : ∀ sign ∈ signs, sign.IsPlusOrMinus) :
      Yields (.chain token signs) (.ok (signs.foldr Token.signValue value))
  | leftFault {left : Expr} {fault : Fault} (operator : Token) (right : Expr) (hleft : Yields left (.error fault)) :
      Yields (.binary operator left right) (.error fault)
  | rightFault {left right : Expr} {first : Int64} {fault : Fault} (operator : Token) (hleft : Yields left (.ok first))
      (hright : Yields right (.error fault)) :
      Yields (.binary operator left right) (.error fault)
  | unknownOperator {operator : Token} {left right : Expr} {first second : Int64}
      (hoperator : operator.kind ∉ [.plus, .minus, .asterisk, .slash]) (hleft : Yields left (.ok first))
      (hright : Yields right (.ok second)) :
      Yields (.binary operator left right) (.error ⟨.unknownOperator operator.literal, operator.position⟩)
  | divisionByZero {operator : Token} {left right : Expr} {first : Int64} (hoperator : operator.kind = .slash)
      (hleft : Yields left (.ok first)) (hright : Yields right (.ok 0)) :
      Yields (.binary operator left right) (.error ⟨.divisionByZero, operator.position⟩)
  | sum {operator : Token} {left right : Expr} {first second : Int64} (hoperator : operator.kind = .plus)
      (hleft : Yields left (.ok first)) (hright : Yields right (.ok second)) :
      Yields (.binary operator left right) (.ok (first + second))
  | difference {operator : Token} {left right : Expr} {first second : Int64} (hoperator : operator.kind = .minus)
      (hleft : Yields left (.ok first)) (hright : Yields right (.ok second)) :
      Yields (.binary operator left right) (.ok (first - second))
  | product {operator : Token} {left right : Expr} {first second : Int64} (hoperator : operator.kind = .asterisk)
      (hleft : Yields left (.ok first)) (hright : Yields right (.ok second)) :
      Yields (.binary operator left right) (.ok (first * second))
  | quotient {operator : Token} {left right : Expr} {first second : Int64} (hoperator : operator.kind = .slash)
      (hzero : second ≠ 0) (hleft : Yields left (.ok first)) (hright : Yields right (.ok second)) :
      Yields (.binary operator left right) (.ok (first / second))

/-! ### Signs -/

theorem applySigns_append (first second : List Token) (value : Int64) :
    applySigns (first ++ second) value = (applySigns first value).bind (applySigns second) := by
  induction first generalizing value with
  | nil => rfl
  | cons sign signs ih =>
    simp only [List.cons_append, applySigns]
    cases UnaryOperator.ofToken sign with
    | ok operator => exact ih _
    | error fault => rfl

theorem applySigns_cons_of_isPlusOrMinus {sign : Token} (h : sign.IsPlusOrMinus) (signs : List Token) (value : Int64) :
    applySigns (sign :: signs) value = applySigns signs (sign.signValue value) := by
  rcases h with hkind | hkind <;>
    simp [applySigns, UnaryOperator.ofToken, UnaryOperator.ofKind?, UnaryOperator.result, Token.signValue, hkind]

theorem applySigns_cons_of_not_isPlusOrMinus {sign : Token} (h : ¬ sign.IsPlusOrMinus) (signs : List Token)
    (value : Int64) : applySigns (sign :: signs) value = .error ⟨.unknownOperator sign.literal, sign.position⟩ := by
  have hnone : UnaryOperator.ofKind? sign.kind = none := by
    unfold UnaryOperator.ofKind?
    split
    · exact absurd (Or.inl ‹_›) h
    · exact absurd (Or.inr ‹_›) h
    · rfl
  rw [applySigns, UnaryOperator.ofToken, hnone]
  rfl

theorem applySigns_of_isPlusOrMinus {signs : List Token} (h : ∀ sign ∈ signs, sign.IsPlusOrMinus) (value : Int64) :
    applySigns signs value = .ok (signs.foldl (fun value sign => sign.signValue value) value) := by
  induction signs generalizing value with
  | nil => rfl
  | cons sign signs ih =>
    obtain ⟨hsign, hsigns⟩ := List.forall_mem_cons.mp h
    rw [applySigns_cons_of_isPlusOrMinus hsign, ih hsigns, List.foldl_cons]

/-- Either all signs are known, or there is a last one that is not. -/
theorem Token.isPlusOrMinus_or_exists_last (signs : List Token) :
    (∀ sign ∈ signs, sign.IsPlusOrMinus) ∨
      ∃ outer sign inner, signs = outer ++ sign :: inner ∧ ¬ sign.IsPlusOrMinus ∧
        ∀ other ∈ inner, other.IsPlusOrMinus := by
  induction signs with
  | nil => exact Or.inl (by simp)
  | cons sign signs ih =>
    rcases ih with hsigns | ⟨outer, last, inner, rfl, hlast, hinner⟩
    · by_cases hsign : sign.IsPlusOrMinus
      · exact Or.inl (List.forall_mem_cons.mpr ⟨hsign, hsigns⟩)
      · exact Or.inr ⟨[], sign, signs, rfl, hsign, hsigns⟩
    · exact Or.inr ⟨sign :: outer, last, inner, rfl, hlast, hinner⟩

namespace Expr

/-! ### One outcome -/

theorem value_chain_of_isPlusOrMinus {token : Token} {value : Int64} (h : token.value = .ok value) {signs : List Token}
    (hsigns : ∀ sign ∈ signs, sign.IsPlusOrMinus) :
    (chain token signs).value = .ok (signs.foldr Token.signValue value) := by
  have hreverse : ∀ sign ∈ signs.reverse, sign.IsPlusOrMinus := by
    intro sign hmem
    exact hsigns sign (List.mem_reverse.mp hmem)
  rw [Expr.value, h, Except.bind, applySigns_of_isPlusOrMinus hreverse, List.foldl_reverse]

theorem value_chain_of_unknownSign {token : Token} {value : Int64} (h : token.value = .ok value) (outer : List Token)
    {sign : Token} (hsign : ¬ sign.IsPlusOrMinus) {inner : List Token}
    (hinner : ∀ other ∈ inner, other.IsPlusOrMinus) :
    (chain token (outer ++ sign :: inner)).value = .error ⟨.unknownOperator sign.literal, sign.position⟩ := by
  have hreverse : ∀ other ∈ inner.reverse, other.IsPlusOrMinus := by
    intro other hmem
    exact hinner other (List.mem_reverse.mp hmem)
  have hsplit : (outer ++ sign :: inner).reverse = inner.reverse ++ sign :: outer.reverse := by simp
  rw [Expr.value, h, Except.bind, hsplit, applySigns_append, applySigns_of_isPlusOrMinus hreverse, Except.bind,
    applySigns_cons_of_not_isPlusOrMinus hsign]

theorem applyBinary_of_unknown {operator : Token} (h : operator.kind ∉ [.plus, .minus, .asterisk, .slash])
    (first second : Int64) :
    applyBinary operator first second = .error ⟨.unknownOperator operator.literal, operator.position⟩ := by
  have hnone : BinaryOperator.ofKind? operator.kind = none := by
    cases hkind : operator.kind <;> first | rfl | simp [hkind] at h
  rw [applyBinary, BinaryOperator.ofToken, hnone]
  rfl

/-- The rules have no other outcome than the value. -/
theorem Yields.value_eq {expr : Expr} {outcome : Except Fault Int64} (h : expr.Yields outcome) :
    expr.value = outcome := by
  induction h with
  | literal token => rfl
  | unreadable h signs => rw [Expr.value, h, Except.bind]
  | unknownSign h outer hsign hinner => exact value_chain_of_unknownSign h outer hsign hinner
  | chain h hsigns => exact value_chain_of_isPlusOrMinus h hsigns
  | leftFault operator right _ ihleft => exact value_binary_of_left_error ihleft
  | rightFault operator _ _ ihleft ihright => exact value_binary_of_right_error ihleft ihright
  | unknownOperator hoperator _ _ ihleft ihright =>
    rw [value_binary_of_ok ihleft ihright, applyBinary_of_unknown hoperator]
  | divisionByZero hoperator _ _ ihleft ihright =>
    rw [value_binary_of_ok ihleft ihright]
    simp [applyBinary, BinaryOperator.ofToken, BinaryOperator.ofKind?, BinaryOperator.result?, hoperator]
  | sum hoperator _ _ ihleft ihright | difference hoperator _ _ ihleft ihright
  | product hoperator _ _ ihleft ihright =>
    rw [value_binary_of_ok ihleft ihright]
    simp [applyBinary, BinaryOperator.ofToken, BinaryOperator.ofKind?, BinaryOperator.result?, hoperator]
  | quotient hoperator hzero _ _ ihleft ihright =>
    rw [value_binary_of_ok ihleft ihright]
    simp [applyBinary, BinaryOperator.ofToken, BinaryOperator.ofKind?, BinaryOperator.result?, hoperator, hzero]

/-- For every operator some rule applies. -/
theorem exists_yields_binary (operator : Token) {left right : Expr} {first second : Int64}
    (hleft : left.Yields (.ok first)) (hright : right.Yields (.ok second)) :
    ∃ outcome, (binary operator left right).Yields outcome := by
  cases hkind : operator.kind
  case plus => exact ⟨_, .sum hkind hleft hright⟩
  case minus => exact ⟨_, .difference hkind hleft hright⟩
  case asterisk => exact ⟨_, .product hkind hleft hright⟩
  case slash =>
    by_cases hzero : second = 0
    · subst hzero
      exact ⟨_, .divisionByZero hkind hleft hright⟩
    · exact ⟨_, .quotient hkind hzero hleft hright⟩
  all_goals exact ⟨_, .unknownOperator (by simp [hkind]) hleft hright⟩

theorem exists_yields (expr : Expr) : ∃ outcome, expr.Yields outcome := by
  induction expr with
  | literal token => exact ⟨_, .literal token⟩
  | chain token signs =>
    cases hvalue : token.value with
    | error fault => exact ⟨_, .unreadable hvalue signs⟩
    | ok value =>
      rcases Token.isPlusOrMinus_or_exists_last signs with hsigns | ⟨outer, sign, inner, rfl, hsign, hinner⟩
      · exact ⟨_, .chain hvalue hsigns⟩
      · exact ⟨_, .unknownSign hvalue outer hsign hinner⟩
  | binary operator left right ihleft ihright =>
    obtain ⟨_ | first, hleft⟩ := ihleft
    · exact ⟨_, .leftFault operator right hleft⟩
    · obtain ⟨_ | second, hright⟩ := ihright
      · exact ⟨_, .rightFault operator hleft hright⟩
      · exact exists_yields_binary operator hleft hright

theorem evaluate_eq_iff {expr : Expr} {outcome : Except Fault Int64} :
    expr.evaluate = outcome ↔ expr.Yields outcome := by
  rw [evaluate_eq_value]
  constructor
  · rintro rfl
    obtain ⟨outcome, h⟩ := exists_yields expr
    rwa [h.value_eq]
  · exact Yields.value_eq

/-! ### The operands that are never missing -/

theorem Yields.cause_ne {expr : Expr} {fault : Fault} (h : expr.Yields (.error fault)) :
    fault.cause ≠ .unexpectedEndOfInput := by
  have hliteral : ∀ token : Token, token.value = .error fault → fault.cause ≠ .unexpectedEndOfInput := by
    intro token hvalue
    unfold Token.value at hvalue
    split at hvalue
    · simp at hvalue
    · rw [← Except.error.inj hvalue]
      exact Cause.noConfusion
  generalize houtcome : Except.error fault = outcome at h
  induction h with
  | literal token => exact hliteral token houtcome.symm
  | unreadable h signs => exact hliteral _ (h.trans houtcome.symm)
  | unknownSign | unknownOperator | divisionByZero =>
    rw [Except.error.inj houtcome]
    exact Cause.noConfusion
  | leftFault operator right _ ihleft => exact ihleft houtcome
  | rightFault operator _ _ _ ihright => exact ihright houtcome
  | chain | sum | difference | product | quotient => exact absurd houtcome (by simp)

theorem evaluate_ne_unexpectedEndOfInput (expr : Expr) (position : Position) :
    expr.evaluate ≠ .error ⟨.unexpectedEndOfInput, position⟩ := by
  intro h
  exact (evaluate_eq_iff.mp h).cause_ne rfl

/-- A fault on the way is the fault of the whole, so what the whole never fails with no node fails with. -/
theorem evaluate_visit_ne_unexpectedEndOfInput {expr : Expr} {done rest : List Visit} {visit : Visit}
    {values : List Int64} (hvisits : expr.visits = done ++ visit :: rest)
    (hdone : Visit.evaluateAll done [] = .ok values) (position : Position) :
    visit.evaluate values ≠ .error ⟨.unexpectedEndOfInput, position⟩ := by
  intro hvisit
  apply evaluate_ne_unexpectedEndOfInput expr position
  rw [evaluate, hvisits, Visit.evaluateAll_append, hdone]
  simp only [Except.bind, Visit.evaluateAll, hvisit]

/-- **One outcome for every expression.** Working along the walk ends with the outcome that the rules give. It never
ends with the fault of a missing operand, and no node on the way meets this fault. -/
theorem evaluate_eq_iff_yields (expr : Expr) :
    (∀ outcome, expr.evaluate = outcome ↔ expr.Yields outcome) ∧
    (∀ position, expr.evaluate ≠ .error ⟨.unexpectedEndOfInput, position⟩) ∧
    ∀ done visit rest values, expr.visits = done ++ visit :: rest → Visit.evaluateAll done [] = .ok values →
      ∀ position, visit.evaluate values ≠ .error ⟨.unexpectedEndOfInput, position⟩ := by
  refine ⟨fun outcome => evaluate_eq_iff, evaluate_ne_unexpectedEndOfInput expr, ?_⟩
  intro done visit rest values hvisits hdone position
  exact evaluate_visit_ne_unexpectedEndOfInput hvisits hdone position

/-- A difference that is divided by zero. -/
def dividedDifference : Expr :=
  binary ⟨.slash, "/", .ofOffset 3 1⟩
    (binary ⟨.minus, "-", .ofOffset 1 1⟩ (literal ⟨.integer, "7", .ofOffset 0 1⟩)
      (literal ⟨.integer, "2", .ofOffset 2 1⟩))
    (literal ⟨.integer, "0", .ofOffset 4 1⟩)

/-- The division finds the difference and zero on the stack, and fails for its divisor and not for an operand. -/
theorem evaluate_eq_iff_yields_dividedDifference :
    dividedDifference.Yields (.error ⟨.divisionByZero, .ofOffset 3⟩) ∧
      Visit.evaluateAll (dividedDifference.visits.take 4) [] = .ok [0, 5] ∧
      ∀ position,
        (Visit.binary ⟨.slash, "/", .ofOffset 3 1⟩).evaluate [0, 5] ≠ .error ⟨.unexpectedEndOfInput, position⟩ := by
  have hvisits : dividedDifference.visits =
      dividedDifference.visits.take 4 ++ [.binary ⟨.slash, "/", .ofOffset 3 1⟩] := by decide +kernel
  have hdone : Visit.evaluateAll (dividedDifference.visits.take 4) [] = .ok [0, 5] := by decide +kernel
  have hfault : dividedDifference.evaluate = .error ⟨.divisionByZero, .ofOffset 3⟩ := by decide +kernel
  obtain ⟨houtcome, -, hoperands⟩ := evaluate_eq_iff_yields dividedDifference
  exact ⟨(houtcome _).mp hfault, hdone, hoperands _ _ [] _ hvisits hdone⟩

end Expr

end Abacus
