import Abacus.Proofs.Expr.Conservation
import Mathlib.Data.List.Forall2

/-!
# Parallel readings

Two streams whose tokens differ in their spans only are read side by side: at every step both parsers make the same
choice, so that related tokens come to stand at the same places of both expressions, or both readings fail at related
tokens. Which tokens are related is left open. All that a reading needs is that related tokens are alike, so that
relating the tokens at the same place of two streams shows that no token is ever mistaken for another one.
-/

namespace Abacus

/-- Tokens that differ in their spans at most. -/
structure Token.Alike (left right : Token) : Prop where
  kind_eq : left.kind = right.kind
  literal_eq : left.literal = right.literal

/-- Two outcomes that are both successes or both faults, and related as such. -/
inductive InParallel {α β : Type} (onSuccess : α → β → Prop) (onFault : Fault → Fault → Prop) :
    Except Fault α → Except Fault β → Prop
  | ok {left : α} {right : β} (h : onSuccess left right) : InParallel onSuccess onFault (.ok left) (.ok right)
  | error {left right : Fault} (h : onFault left right) : InParallel onSuccess onFault (.error left) (.error right)

theorem InParallel.bind {α β γ δ : Type} {onSuccess : α → β → Prop} {onNext : γ → δ → Prop}
    {onFault : Fault → Fault → Prop} {left : Except Fault α} {right : Except Fault β} {leftNext : α → Except Fault γ}
    {rightNext : β → Except Fault δ} (h : InParallel onSuccess onFault left right)
    (hnext : ∀ leftValue rightValue, onSuccess leftValue rightValue →
      InParallel onNext onFault (leftNext leftValue) (rightNext rightValue)) :
    InParallel onNext onFault (left.bind leftNext) (right.bind rightNext) := by
  cases h with
  | ok hsuccess => exact hnext _ _ hsuccess
  | error hfault => exact .error hfault

theorem InParallel.mono {α β : Type} {onSuccess : α → β → Prop} {onFault weaker : Fault → Fault → Prop}
    {left : Except Fault α} {right : Except Fault β} (h : InParallel onSuccess onFault left right)
    (hweaker : ∀ leftFault rightFault, onFault leftFault rightFault → weaker leftFault rightFault) :
    InParallel onSuccess weaker left right := by
  cases h with
  | ok hsuccess => exact .ok hsuccess
  | error hfault => exact .error (hweaker _ _ hfault)

/-- Parallel outcomes of equal values are the same value twice, or two faults. -/
theorem InParallel.eq_or_error {α : Type} {onFault : Fault → Fault → Prop} {left right : Except Fault α}
    (h : InParallel Eq onFault left right) :
    (∃ value, left = .ok value ∧ right = .ok value) ∨
      ∃ leftFault rightFault, left = .error leftFault ∧ right = .error rightFault ∧ onFault leftFault rightFault := by
  cases h with
  | ok hsame => exact Or.inl ⟨_, rfl, congrArg Except.ok hsame.symm⟩
  | error hfault => exact Or.inr ⟨_, _, rfl, rfl, hfault⟩

/-- Faults with one cause, at the positions of related tokens. -/
def Fault.Parallel (related : Token → Token → Prop) (left right : Fault) : Prop :=
  left.cause = right.cause ∧
    ∃ first second, related first second ∧ left.position = first.position ∧ right.position = second.position

/-- Expressions of one shape with related tokens at the same places. -/
inductive Expr.Parallel (related : Token → Token → Prop) : Expr → Expr → Prop
  | literal {left right : Token} (h : related left right) : Parallel related (.literal left) (.literal right)
  | chain {left right : Token} {leftSigns rightSigns : List Token} (h : related left right)
      (hsigns : List.Forall₂ related leftSigns rightSigns) :
      Parallel related (.chain left leftSigns) (.chain right rightSigns)
  | binary {left right : Token} {leftFirst rightFirst leftSecond rightSecond : Expr} (h : related left right)
      (hfirst : Parallel related leftFirst rightFirst) (hsecond : Parallel related leftSecond rightSecond) :
      Parallel related (.binary left leftFirst leftSecond) (.binary right rightFirst rightSecond)

theorem Expr.Parallel.signed {related : Token → Token → Prop} {left right : Token} {leftSigns rightSigns : List Token}
    (h : related left right) (hsigns : List.Forall₂ related leftSigns rightSigns) :
    Expr.Parallel related (.signed left leftSigns) (.signed right rightSigns) := by
  cases hsigns with
  | nil => exact .literal h
  | cons hsign hrest => exact .chain h (.cons hsign hrest)

namespace Parser

/-- Related tokens, or the ends of the input that two parsers come to behind their streams. -/
def OrEnd (related : Token → Token → Prop) (leftEnd rightEnd : Position) (left right : Token) : Prop :=
  related left right ∨ left = .endOfInput leftEnd ∧ right = .endOfInput rightEnd

/-- Parsers with related tokens before them and one grammar, which come to the end of the input at given positions. -/
structure Parallel (related : Token → Token → Prop) (leftEnd rightEnd : Position) (left right : Parser) : Prop where
  pending : List.Forall₂ related left.pending right.pending
  grammar_eq : left.grammar = right.grammar
  finish_left : Token.finish left.reached left.pending = leftEnd
  finish_right : Token.finish right.reached right.pending = rightEnd

/-- Results of two calls: both have found something, or both have failed, and the parsers after them are in parallel. -/
inductive ResultsParallel {α : Type} (related : Token → Token → Prop) (leftEnd rightEnd : Position)
    (onSuccess : α → α → Prop) : Except Fault α × Parser → Except Fault α × Parser → Prop
  | found {left right : α} {leftRest rightRest : Parser} (h : onSuccess left right)
      (hrest : Parallel related leftEnd rightEnd leftRest rightRest) :
      ResultsParallel related leftEnd rightEnd onSuccess (.ok left, leftRest) (.ok right, rightRest)
  | refused {left right : Fault} {leftRest rightRest : Parser}
      (h : Fault.Parallel (OrEnd related leftEnd rightEnd) left right)
      (hrest : Parallel related leftEnd rightEnd leftRest rightRest) :
      ResultsParallel related leftEnd rightEnd onSuccess (.error left, leftRest) (.error right, rightRest)

/-- Frames around expressions of one shape, with related operators of one power. -/
structure Frame.Parallel (related : Token → Token → Prop) (first second : Frame) : Prop where
  left : Expr.Parallel related first.left second.left
  operator : related first.operator second.operator
  power_eq : first.power = second.power

section Parallel

variable {related : Token → Token → Prop} {leftEnd rightEnd : Position} {left right : Parser}

theorem Parallel.current (h : Parallel related leftEnd rightEnd left right) :
    OrEnd related leftEnd rightEnd left.current right.current := by
  rcases left with ⟨leftPending, leftReached, grammar⟩
  rcases right with ⟨rightPending, rightReached, _⟩
  obtain ⟨hpending, -, hleft, hright⟩ := h
  cases hpending with
  | nil =>
    dsimp only [Token.finish] at hleft hright
    subst hleft hright
    exact Or.inr ⟨rfl, rfl⟩
  | cons htoken _ => exact Or.inl htoken

/-- Unless the input has ended, the current tokens come from the streams. -/
theorem Parallel.related_current (h : Parallel related leftEnd rightEnd left right)
    (hend : left.current.kind ≠ .endOfInput) : related left.current right.current := by
  rcases h.current with hrelated | ⟨hleft, -⟩
  · exact hrelated
  · rw [hleft] at hend
    exact absurd rfl hend

theorem Parallel.advance (h : Parallel related leftEnd rightEnd left right) :
    Parallel related leftEnd rightEnd left.advance.2 right.advance.2 := by
  rcases left with ⟨leftPending, leftReached, grammar⟩
  rcases right with ⟨rightPending, rightReached, _⟩
  obtain ⟨hpending, hgrammar, hleft, hright⟩ := h
  cases hpending with
  | nil => exact ⟨.nil, hgrammar, hleft, hright⟩
  | cons _ hrest => exact ⟨hrest, hgrammar, hleft, hright⟩

/-! ### Frames -/

theorem parallel_closeAll {leftFrames rightFrames : List Frame} {leftExpr rightExpr : Expr}
    (hframes : List.Forall₂ (Frame.Parallel related) leftFrames rightFrames)
    (hexpr : Expr.Parallel related leftExpr rightExpr) :
    Expr.Parallel related (closeAll leftFrames leftExpr) (closeAll rightFrames rightExpr) := by
  induction hframes generalizing leftExpr rightExpr with
  | nil => exact hexpr
  | cons hframe _ ih => exact ih (.binary hframe.operator hframe.left hexpr)

/-- Frames are closed in pairs, since they bind equally strongly. -/
theorem parallel_closeFrames {leftFrames rightFrames : List Frame} {leftExpr rightExpr : Expr}
    (hframes : List.Forall₂ (Frame.Parallel related) leftFrames rightFrames)
    (hexpr : Expr.Parallel related leftExpr rightExpr) (power : BindingPower) (leftEvents rightEvents : List Event) :
    List.Forall₂ (Frame.Parallel related) (closeFrames power leftFrames leftExpr leftEvents).frames
        (closeFrames power rightFrames rightExpr rightEvents).frames ∧
      Expr.Parallel related (closeFrames power leftFrames leftExpr leftEvents).expr
        (closeFrames power rightFrames rightExpr rightEvents).expr := by
  induction hframes generalizing leftExpr rightExpr leftEvents rightEvents with
  | nil => exact ⟨.nil, hexpr⟩
  | cons hframe hrest ih =>
    rw [closeFrames, closeFrames, hframe.power_eq]
    split
    · exact ⟨.cons hframe hrest, hexpr⟩
    · exact ih (.binary hframe.operator hframe.left hexpr) _ _

structure Progress.Parallel (related : Token → Token → Prop) (left right : Progress) : Prop where
  frames : List.Forall₂ (Frame.Parallel related) left.frames right.frames
  expr : Expr.Parallel related left.expr right.expr

theorem Progress.Parallel.join {left right : Progress} (h : Progress.Parallel related left right)
    {leftOperator rightOperator : Token} (hoperator : related leftOperator rightOperator)
    {leftOperand rightOperand : Expr} (hoperand : Expr.Parallel related leftOperand rightOperand)
    (power : BindingPower) :
    Progress.Parallel related (left.join leftOperator power leftOperand)
      (right.join rightOperator power rightOperand) := by
  obtain ⟨hframes, hexpr⟩ := parallel_closeFrames h.frames h.expr power left.events right.events
  exact ⟨.cons ⟨hexpr, hoperator, rfl⟩ hframes, hoperand⟩

/-! ### Operands -/

variable (halike : ∀ {left right : Token}, related left right → left.Alike right)
include halike

theorem OrEnd.alike {left right : Token} (h : OrEnd related leftEnd rightEnd left right) : left.Alike right := by
  rcases h with hrelated | ⟨rfl, rfl⟩
  · exact halike hrelated
  · exact ⟨rfl, rfl⟩

section Operands

variable (h : Parallel related leftEnd rightEnd left right)
include h

theorem Parallel.kind_current_eq : left.current.kind = right.current.kind :=
  (OrEnd.alike halike h.current).kind_eq

theorem Parallel.unexpected :
    Fault.Parallel (OrEnd related leftEnd rightEnd) left.unexpected right.unexpected := by
  have hcurrent := h.current
  have hkind := h.kind_current_eq halike
  unfold Parser.unexpected
  by_cases hend : left.current.kind = .endOfInput
  · rw [if_pos hend, if_pos (hkind ▸ hend)]
    exact ⟨rfl, _, _, hcurrent, rfl, rfl⟩
  · rw [if_neg hend, if_neg (hkind ▸ hend)]
    exact ⟨congrArg Cause.illegalToken (OrEnd.alike halike hcurrent).literal_eq, _, _, hcurrent, rfl, rfl⟩

theorem Parallel.expect {kind : TokenKind} (hkind : kind ≠ .endOfInput) :
    ResultsParallel related leftEnd rightEnd related (left.expect kind) (right.expect kind) := by
  have hsame := h.kind_current_eq halike
  unfold Parser.expect
  by_cases hcurrent : left.current.kind = kind
  · rw [if_pos hcurrent, if_pos (hsame ▸ hcurrent)]
    have hrelated := h.related_current (hcurrent ▸ hkind)
    rw [← advance_fst left, ← advance_fst right] at hrelated
    exact .found hrelated h.advance
  · rw [if_neg hcurrent, if_neg (hsame ▸ hcurrent)]
    exact .refused (h.unexpected halike) h

theorem Parallel.expect_integer :
    ResultsParallel related leftEnd rightEnd related (left.expect .integer) (right.expect .integer) :=
  h.expect halike TokenKind.noConfusion

theorem Parallel.integer :
    ResultsParallel related leftEnd rightEnd (Expr.Parallel related) left.integer right.integer := by
  have hexpect := h.expect_integer halike
  unfold Parser.integer
  generalize left.expect .integer = leftResult at hexpect ⊢
  generalize right.expect .integer = rightResult at hexpect ⊢
  cases hexpect with
  | found htoken hrest => exact .found (.literal htoken) hrest
  | refused hfault hrest => exact .refused hfault hrest

/-- Signs are passed over in pairs. -/
theorem Parallel.skipSigns :
    List.Forall₂ related left.signs right.signs ∧
      Parallel related leftEnd rightEnd left.skipSigns right.skipSigns := by
  rcases left with ⟨leftPending, leftReached, grammar⟩
  rcases right with ⟨rightPending, rightReached, other⟩
  obtain ⟨hpending, hgrammar, hleft, hright⟩ := h
  dsimp only at hpending hgrammar hleft hright
  subst hgrammar
  induction hpending generalizing leftReached rightReached with
  | nil => exact ⟨.nil, .nil, rfl, hleft, hright⟩
  | @cons leftToken rightToken leftPending rightPending htoken hrest ih =>
    have hsame : leftToken.isSign = rightToken.isSign := congrArg TokenKind.isSign (halike htoken).kind_eq
    by_cases hsign : leftToken.isSign = true
    · obtain ⟨hleftSigns, hleftSkip⟩ := skipSigns_of_isSign ⟨leftToken :: leftPending, leftReached, grammar⟩ hsign
      obtain ⟨hrightSigns, hrightSkip⟩ :=
        skipSigns_of_isSign ⟨rightToken :: rightPending, rightReached, grammar⟩ (hsame ▸ hsign)
      obtain ⟨hsigns, hskip⟩ := ih leftToken.span.stop rightToken.span.stop hleft hright
      rw [hleftSigns, hrightSigns, hleftSkip, hrightSkip]
      exact ⟨.cons htoken hsigns, hskip⟩
    · have hnotSign : leftToken.isSign = false := by simpa using hsign
      obtain ⟨hleftSigns, hleftSkip⟩ :=
        skipSigns_of_not_isSign ⟨leftToken :: leftPending, leftReached, grammar⟩ hnotSign
      obtain ⟨hrightSigns, hrightSkip⟩ :=
        skipSigns_of_not_isSign ⟨rightToken :: rightPending, rightReached, grammar⟩ (hsame ▸ hnotSign)
      rw [hleftSigns, hrightSigns, hleftSkip, hrightSkip]
      exact ⟨.nil, .cons htoken hrest, rfl, hleft, hright⟩

theorem Parallel.signed :
    ResultsParallel related leftEnd rightEnd (Expr.Parallel related) left.signed right.signed := by
  obtain ⟨hsigns, hskip⟩ := h.skipSigns halike
  have hexpect := hskip.expect_integer halike
  unfold Parser.signed
  generalize left.skipSigns.expect .integer = leftResult at hexpect ⊢
  generalize right.skipSigns.expect .integer = rightResult at hexpect ⊢
  cases hexpect with
  | found htoken hrest => exact .found (.signed htoken hsigns) hrest
  | refused hfault hrest => exact .refused hfault hrest

theorem Parallel.operand :
    ResultsParallel related leftEnd rightEnd (Expr.Parallel related) left.operand right.operand := by
  unfold Parser.operand
  rw [h.grammar_eq, h.kind_current_eq halike]
  split
  · exact h.integer halike
  · exact h.signed halike
  · exact .refused (h.unexpected halike) h

end Operands

/-! ### The loop over operators -/

theorem Parallel.resume (h : Parallel related leftEnd rightEnd left right) {leftProgress rightProgress : Progress}
    (hprogress : Progress.Parallel related leftProgress rightProgress) :
    InParallel (Expr.Parallel related) (Fault.Parallel (OrEnd related leftEnd rightEnd))
      (left.resume leftProgress).outcome (right.resume rightProgress).outcome := by
  -- both readings go from operand to operand, so the induction is on how many tokens are pending
  induction hlength : left.pending.length using Nat.strongRecOn generalizing left right leftProgress rightProgress with
  | ind length ih =>
    subst hlength
    have hkind := h.kind_current_eq halike
    have hpower : left.grammar.power left.current.kind = right.grammar.power right.current.kind := by
      rw [h.grammar_eq, hkind]
    by_cases hend : left.current.kind = .endOfInput
    · rw [(resume_of_end hend).1, (resume_of_end (hkind ▸ hend)).1]
      exact .ok (parallel_closeAll hprogress.frames hprogress.expr)
    · by_cases hlowest : left.grammar.power left.current.kind = .lowest
      · rw [resume_of_lowest hend hlowest, resume_of_lowest (hkind ▸ hend) (hpower ▸ hlowest)]
        exact .error (h.unexpected halike)
      · have hread := h.advance.operand halike
        generalize hleft : left.advance.2.operand = leftResult at hread
        generalize hright : right.advance.2.operand = rightResult at hread
        cases hread with
        | found hexpr hrest =>
          have hshorter := length_pending_lt_of_operand hend hleft
          rw [resume_of_operand hend hlowest hleft,
            resume_of_operand (hkind ▸ hend) (hpower ▸ hlowest) hright, ← hpower]
          exact ih _ hshorter hrest (hprogress.join (h.related_current hend) hexpr _) rfl
        | refused hfault hrest =>
          rw [resume_of_operand_error hend hlowest hleft,
            resume_of_operand_error (hkind ▸ hend) (hpower ▸ hlowest) hright]
          exact .error hfault

theorem Parallel.expression (h : Parallel related leftEnd rightEnd left right) :
    InParallel (Expr.Parallel related) (Fault.Parallel (OrEnd related leftEnd rightEnd))
      left.expression.outcome right.expression.outcome := by
  have hread := h.operand halike
  unfold Parser.expression
  generalize left.operand = leftResult at hread ⊢
  generalize right.operand = rightResult at hread ⊢
  cases hread with
  | found hexpr hrest => exact hrest.resume halike ⟨.nil, hexpr⟩
  | refused hfault hrest => exact .error hfault

end Parallel

end Parser

/-- Streams of related tokens are read as expressions of one shape, or both readings fail at related tokens or at the
end of the input. -/
theorem Expr.parallel_parse {related : Token → Token → Prop}
    (halike : ∀ {left right : Token}, related left right → left.Alike right) {tokens others : List Token}
    (h : List.Forall₂ related tokens others) :
    InParallel (Expr.Parallel related)
      (Fault.Parallel (Parser.OrEnd related (Token.finish .start tokens) (Token.finish .start others)))
      (parse tokens) (parse others) := by
  have hparsers : Parser.Parallel related (Token.finish .start tokens) (Token.finish .start others)
      (.ofTokens tokens .arithmetic) (.ofTokens others .arithmetic) :=
    ⟨h, rfl, rfl, rfl⟩
  rw [parse, parse, Parser.outcome_arithmetic, Parser.outcome_arithmetic]
  exact hparsers.expression halike

end Abacus
