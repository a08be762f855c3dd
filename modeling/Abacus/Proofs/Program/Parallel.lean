import Abacus.Proofs.Program.Listing
import Abacus.Session.Line

/-!
# Meaning without positions

Expressions of one shape with tokens that are alike have the same value and, up to positions, the same program, or they
fail with the same cause at tokens in the same place. Positions are carried along and reported, but no step looks at
them. How the tokens of a line are spaced out therefore changes its answer in no other way than where a fault is said
to be.
-/

namespace Abacus

/-- An instruction for an operation knows the position of its operator; all else is the same in both. -/
inductive Instruction.Parallel (related : Token → Token → Prop) : Instruction → Instruction → Prop
  | const (value : Int64) : Parallel related (.const value) (.const value)
  | negate : Parallel related .negate .negate
  | binary (operator : BinaryOperator) {left right : Token} (h : related left right) :
      Parallel related (.binary operator left.position) (.binary operator right.position)

theorem Instruction.Parallel.alike {related : Token → Token → Prop} {left right : Instruction}
    (h : Instruction.Parallel related left right) : left.Alike right := by
  cases h with
  | const value => exact .const value
  | negate => exact .negate
  | binary operator _ => exact .binary operator _ _

def Program.Parallel (related : Token → Token → Prop) (left right : Program) : Prop :=
  List.Forall₂ (Instruction.Parallel related) left.instructions right.instructions

inductive Visit.Parallel (related : Token → Token → Prop) : Visit → Visit → Prop
  | literal {left right : Token} (h : related left right) : Parallel related (.literal left) (.literal right)
  | chain {left right : Token} {leftSigns rightSigns : List Token} (h : related left right)
      (hsigns : List.Forall₂ related leftSigns rightSigns) :
      Parallel related (.chain left leftSigns) (.chain right rightSigns)
  | binary {left right : Token} (h : related left right) : Parallel related (.binary left) (.binary right)

/-- Results of adding to two assemblers: both have added the same up to positions, or both have failed. -/
inductive Assembler.ResultsParallel (related : Token → Token → Prop) :
    Except Fault Unit × Assembler → Except Fault Unit × Assembler → Prop
  | added {left right : Assembler} (h : List.Forall₂ (Instruction.Parallel related) left.emitted right.emitted) :
      ResultsParallel related (.ok (), left) (.ok (), right)
  | refused {leftFault rightFault : Fault} {left right : Assembler} (h : Fault.Parallel related leftFault rightFault) :
      ResultsParallel related (.error leftFault, left) (.error rightFault, right)

section Parallel

variable {related : Token → Token → Prop}

theorem Fault.parallel_at {left right : Token} (h : related left right) {leftCause rightCause : Cause}
    (hcause : leftCause = rightCause) :
    Fault.Parallel related ⟨leftCause, left.position⟩ ⟨rightCause, right.position⟩ :=
  ⟨hcause, left, right, h, rfl, rfl⟩

theorem Expr.Parallel.postOrder {left right : Expr} (h : Expr.Parallel related left right) :
    List.Forall₂ (Visit.Parallel related) left.postOrder right.postOrder := by
  induction h with
  | literal h => exact .cons (.literal h) .nil
  | chain h hsigns => exact .cons (.chain h hsigns) .nil
  | binary h _ _ ihfirst ihsecond => exact List.rel_append (List.rel_append ihfirst ihsecond) (.cons (.binary h) .nil)

variable (halike : ∀ {left right : Token}, related left right → left.Alike right)
include halike

/-! ### Values -/

section Tokens

variable {left right : Token} (h : related left right)
include h

theorem Token.parallel_value : InParallel Eq (Fault.Parallel related) left.value right.value := by
  unfold Token.value
  rw [(halike h).literal_eq]
  cases Numeral.value? right.literal.toList with
  | some value => exact .ok rfl
  | none => exact .error (Fault.parallel_at h rfl)

theorem UnaryOperator.parallel_ofToken : InParallel Eq (Fault.Parallel related) (ofToken left) (ofToken right) := by
  unfold ofToken
  rw [(halike h).kind_eq]
  cases ofKind? right.kind with
  | some operator => exact .ok rfl
  | none => exact .error (Fault.parallel_at h (congrArg Cause.unknownOperator (halike h).literal_eq))

theorem BinaryOperator.parallel_ofToken : InParallel Eq (Fault.Parallel related) (ofToken left) (ofToken right) := by
  unfold ofToken
  rw [(halike h).kind_eq]
  cases ofKind? right.kind with
  | some operator => exact .ok rfl
  | none => exact .error (Fault.parallel_at h (congrArg Cause.unknownOperator (halike h).literal_eq))

theorem parallel_applyBinary (first second : Int64) :
    InParallel Eq (Fault.Parallel related) (applyBinary left first second) (applyBinary right first second) := by
  rcases (BinaryOperator.parallel_ofToken halike h).eq_or_error with
    ⟨operator, hleft, hright⟩ | ⟨_, _, hleft, hright, hfault⟩
  · rw [applyBinary, applyBinary, hleft, hright]
    dsimp only
    cases operator.result? first second with
    | some value => exact .ok rfl
    | none => exact .error (Fault.parallel_at h rfl)
  · rw [applyBinary, applyBinary, hleft, hright]
    exact .error hfault

end Tokens

theorem parallel_applySigns {left right : List Token} (h : List.Forall₂ related left right) (value : Int64) :
    InParallel Eq (Fault.Parallel related) (applySigns left value) (applySigns right value) := by
  induction h generalizing value with
  | nil => exact .ok rfl
  | cons hsign _ ih =>
    rcases (UnaryOperator.parallel_ofToken halike hsign).eq_or_error with
      ⟨operator, hleft, hright⟩ | ⟨_, _, hleft, hright, hfault⟩
    · rw [applySigns, applySigns, hleft, hright]
      exact ih _
    · rw [applySigns, applySigns, hleft, hright]
      exact .error hfault

theorem Expr.Parallel.value {left right : Expr} (h : Expr.Parallel related left right) :
    InParallel Eq (Fault.Parallel related) left.value right.value := by
  induction h with
  | literal h => exact Token.parallel_value halike h
  | chain h hsigns =>
    refine (Token.parallel_value halike h).bind ?_
    rintro value _ rfl
    exact parallel_applySigns halike (List.rel_reverse hsigns) value
  | binary h _ _ ihfirst ihsecond =>
    refine ihfirst.bind ?_
    rintro first _ rfl
    refine ihsecond.bind ?_
    rintro second _ rfl
    exact parallel_applyBinary halike h first second

theorem Expr.Parallel.evaluate {left right : Expr} (h : Expr.Parallel related left right) :
    InParallel Eq (Fault.Parallel related) left.evaluate right.evaluate := by
  rw [evaluate_eq_value, evaluate_eq_value]
  exact h.value halike

/-! ### Programs -/

namespace Assembler

section Emitted

variable {left right : Assembler} (h : List.Forall₂ (Instruction.Parallel related) left.emitted right.emitted)
include h

theorem parallel_addLiteral {leftToken rightToken : Token} (htoken : related leftToken rightToken) :
    ResultsParallel related (left.addLiteral leftToken) (right.addLiteral rightToken) := by
  rcases (Token.parallel_value halike htoken).eq_or_error with
    ⟨value, hleft, hright⟩ | ⟨_, _, hleft, hright, hfault⟩
  · rw [addLiteral_of_ok hleft, addLiteral_of_ok hright]
    exact .added (.cons (.const value) h)
  · rw [addLiteral_of_error hleft, addLiteral_of_error hright]
    exact .refused hfault

theorem parallel_addSigns {leftSigns rightSigns : List Token} (hsigns : List.Forall₂ related leftSigns rightSigns) :
    ResultsParallel related (addSigns leftSigns left) (addSigns rightSigns right) := by
  induction hsigns generalizing left right with
  | nil => exact .added h
  | cons hsign _ ih =>
    rcases (UnaryOperator.parallel_ofToken halike hsign).eq_or_error with
      ⟨operator, hleft, hright⟩ | ⟨_, _, hleft, hright, hfault⟩
    · rw [addSigns, addSigns, hleft, hright]
      cases operator with
      | identity => exact ih h
      | negate => exact ih (.cons .negate h)
    · rw [addSigns, addSigns, hleft, hright]
      exact .refused hfault

theorem parallel_addVisit {leftVisit rightVisit : Visit} (hvisit : Visit.Parallel related leftVisit rightVisit) :
    ResultsParallel related (left.addVisit leftVisit) (right.addVisit rightVisit) := by
  cases hvisit with
  | literal htoken => exact parallel_addLiteral halike h htoken
  | @chain leftToken rightToken _ _ htoken hsigns =>
    have hliteral := parallel_addLiteral halike h htoken
    rw [addVisit, addVisit]
    generalize left.addLiteral leftToken = leftResult at hliteral ⊢
    generalize right.addLiteral rightToken = rightResult at hliteral ⊢
    cases hliteral with
    | added hadded => exact parallel_addSigns halike hadded (List.rel_reverse hsigns)
    | refused hfault => exact .refused hfault
  | binary htoken =>
    rcases (BinaryOperator.parallel_ofToken halike htoken).eq_or_error with
      ⟨operator, hleft, hright⟩ | ⟨_, _, hleft, hright, hfault⟩
    · rw [addVisit, addVisit, hleft, hright]
      exact .added (.cons (.binary operator htoken) h)
    · rw [addVisit, addVisit, hleft, hright]
      exact .refused hfault

theorem parallel_addVisits {leftVisits rightVisits : List Visit}
    (hvisits : List.Forall₂ (Visit.Parallel related) leftVisits rightVisits) :
    ResultsParallel related (addVisits leftVisits left) (addVisits rightVisits right) := by
  induction hvisits generalizing left right with
  | nil => exact .added h
  | @cons leftVisit rightVisit _ _ hvisit _ ih =>
    have hadd := parallel_addVisit halike h hvisit
    rw [addVisits, addVisits]
    generalize left.addVisit leftVisit = leftResult at hadd ⊢
    generalize right.addVisit rightVisit = rightResult at hadd ⊢
    cases hadd with
    | added hadded => exact ih hadded
    | refused hfault => exact .refused hfault

end Emitted

end Assembler

theorem Expr.Parallel.compile {left right : Expr} (h : Expr.Parallel related left right) :
    InParallel (Program.Parallel related) (Fault.Parallel related) left.compile right.compile := by
  have hempty : List.Forall₂ (Instruction.Parallel related) Assembler.empty.emitted Assembler.empty.emitted := .nil
  have hadd := Assembler.parallel_addVisits halike hempty h.postOrder
  rw [Expr.compile, Expr.compile, Assembler.add, Assembler.add, visits_eq_postOrder, visits_eq_postOrder]
  generalize Assembler.addVisits left.postOrder Assembler.empty = leftResult at hadd ⊢
  generalize Assembler.addVisits right.postOrder Assembler.empty = rightResult at hadd ⊢
  cases hadd with
  | added hadded => exact .ok (List.rel_reverse hadded)
  | refused hfault => exact .error hfault

/-- Programs of expressions in parallel have the value of their expressions. -/
theorem Expr.Parallel.run {left right : Expr} (h : Expr.Parallel related left right) {program other : Program}
    (hprogram : left.compile = .ok program) (hother : right.compile = .ok other) :
    InParallel Eq (Fault.Parallel related) program.run other.run := by
  rw [run_of_compile_eq_ok hprogram, run_of_compile_eq_ok hother]
  exact h.evaluate halike

/-! ### Texts -/

theorem Expr.bracketedSigns_eq {left right : List Token} (h : List.Forall₂ related left right) :
    bracketedSigns left = bracketedSigns right := by
  induction h with
  | nil => rfl
  | cons hsign _ ih => rw [bracketedSigns, bracketedSigns, (halike hsign).literal_eq, ih]

theorem Expr.Parallel.render_eq {left right : Expr} (h : Expr.Parallel related left right) :
    left.render = right.render := by
  rw [render_eq_bracketed, render_eq_bracketed]
  induction h with
  | literal h => rw [bracketed, bracketed, (halike h).literal_eq]
  | chain h hsigns => rw [bracketed, bracketed, (halike h).literal_eq, bracketedSigns_eq halike hsigns]
  | binary h _ _ ihfirst ihsecond => rw [bracketed, bracketed, (halike h).literal_eq, ihfirst, ihsecond]

omit halike in
theorem Program.Parallel.listing_eq {left right : Program} (h : Program.Parallel related left right) :
    left.listing = right.listing := by
  rw [listing_eq_iff]
  exact h.imp fun _ _ hinstruction => hinstruction.alike

theorem Expr.Parallel.report (options : Options) {left right : Expr} (h : Expr.Parallel related left right)
    (value : Int64) :
    InParallel Eq (Fault.Parallel related) (Evaluation.report options ⟨left, value⟩)
      (Evaluation.report options ⟨right, value⟩) := by
  have htext : Evaluation.text ⟨left, value⟩ = Evaluation.text ⟨right, value⟩ := by
    rw [Evaluation.text, Evaluation.text, h.render_eq halike]
  have hcompile := h.compile halike
  unfold Evaluation.report
  split
  · generalize left.compile = leftProgram at hcompile ⊢
    generalize right.compile = rightProgram at hcompile ⊢
    cases hcompile with
    | ok hprogram =>
      apply InParallel.ok
      rw [htext, Program.Parallel.listing_eq hprogram]
    | error hfault => exact .error hfault
  · exact .ok htext

end Parallel

theorem runLine_eq_bind (options : Options) (line : String) :
    runLine options line = (Expr.parse (tokenize line)).bind fun expr =>
      expr.evaluate.bind fun value => Evaluation.report options ⟨expr, value⟩ := by
  rw [runLine, Parser.Reading.report, ← Expr.parse]
  cases Expr.parse (tokenize line) with
  | error fault => rfl
  | ok expr =>
    simp only [Expr.evaluation, Except.bind]
    cases expr.evaluate <;> rfl

/-- Lines with tokens that are alike have the same answer, or faults with the same cause. -/
theorem inParallel_runLine (options : Options) {line other : String}
    (h : List.Forall₂ Token.Alike (tokenize line) (tokenize other)) :
    InParallel Eq (fun left right => left.cause = right.cause) (runLine options line) (runLine options other) := by
  have hcause : ∀ (related : Token → Token → Prop) (left right : Fault),
      Fault.Parallel related left right → left.cause = right.cause := fun _ _ _ h => h.1
  rw [runLine_eq_bind, runLine_eq_bind]
  refine ((Expr.parallel_parse id h).mono (hcause _)).bind ?_
  intro left right hexpr
  refine ((hexpr.evaluate id).mono (hcause _)).bind ?_
  rintro value _ rfl
  exact (hexpr.report id options value).mono (hcause _)

/-! ### Places -/

/-- Tokens at the same place of two streams. -/
def Token.SharePlace (tokens others : List Token) (left right : Token) : Prop :=
  ∃ place : Nat, tokens[place]? = some left ∧ others[place]? = some right

section Places

variable {tokens others : List Token} (h : List.Forall₂ Token.Alike tokens others)
include h

theorem Token.alike_of_sharePlace {left right : Token} (hplace : SharePlace tokens others left right) :
    left.Alike right := by
  obtain ⟨place, hleft, hright⟩ := hplace
  obtain ⟨hleftLt, rfl⟩ := List.getElem?_eq_some_iff.mp hleft
  obtain ⟨hrightLt, rfl⟩ := List.getElem?_eq_some_iff.mp hright
  exact h.get hleftLt hrightLt

theorem Token.forall₂_sharePlace : List.Forall₂ (SharePlace tokens others) tokens others := by
  refine List.forall₂_of_length_eq_of_get h.length_eq ?_
  intro place hleft hright
  exact ⟨place, List.getElem?_eq_getElem hleft, List.getElem?_eq_getElem hright⟩

end Places

theorem Expr.tokens_prefix_of_parse {tokens : List Token} {expr : Expr} (h : parse tokens = .ok expr) :
    expr.tokens <+: tokens := by
  obtain ⟨row, rest, rfl, -, rfl⟩ := exists_row_of_parse h
  rw [row.tokens_expr]
  exact List.prefix_append _ _

/-- **Spans carry no meaning.** Two streams whose tokens agree in kind and literal are both read, as expressions of one
shape with the tokens of the same places, or both are refused, at the same place or at the end of the input. Both
expressions have the same value, and up to positions the same program, or fail with one cause at the same place. Hence
two lines with such tokens have the same answer, or faults with the same cause. -/
theorem meaning_eq_of_alike_tokens :
    (∀ tokens others : List Token, List.Forall₂ Token.Alike tokens others →
      InParallel (Expr.Parallel (Token.SharePlace tokens others))
        (Fault.Parallel (Parser.OrEnd (Token.SharePlace tokens others) (Token.finish .start tokens)
          (Token.finish .start others)))
        (Expr.parse tokens) (Expr.parse others) ∧
      ∀ left right, Expr.parse tokens = .ok left → Expr.parse others = .ok right →
        left.tokens <+: tokens ∧ right.tokens <+: others ∧
        InParallel Eq (Fault.Parallel (Token.SharePlace tokens others)) left.evaluate right.evaluate ∧
        InParallel (Program.Parallel (Token.SharePlace tokens others)) (Fault.Parallel (Token.SharePlace tokens others))
          left.compile right.compile ∧
        ∀ program other, left.compile = .ok program → right.compile = .ok other →
          InParallel Eq (Fault.Parallel (Token.SharePlace tokens others)) program.run other.run) ∧
    ∀ (options : Options) (line other : String), List.Forall₂ Token.Alike (tokenize line) (tokenize other) →
      InParallel Eq (fun left right => left.cause = right.cause) (runLine options line) (runLine options other) := by
  refine ⟨?_, fun options line other h => inParallel_runLine options h⟩
  intro tokens others h
  have hparse := Expr.parallel_parse (Token.alike_of_sharePlace h) (Token.forall₂_sharePlace h)
  refine ⟨hparse, ?_⟩
  intro left right hleft hright
  rw [hleft, hright] at hparse
  cases hparse with
  | ok hexpr =>
    refine ⟨Expr.tokens_prefix_of_parse hleft, Expr.tokens_prefix_of_parse hright,
      hexpr.evaluate (Token.alike_of_sharePlace h), hexpr.compile (Token.alike_of_sharePlace h), ?_⟩
    intro program other hprogram hother
    exact hexpr.run (Token.alike_of_sharePlace h) hprogram hother

/-- Blanks move the fault of a division by zero, and change nothing else about it. -/
theorem meaning_eq_of_alike_tokens_division :
    List.Forall₂ Token.Alike (tokenize "1/0") (tokenize " 1 / 0") ∧
      InParallel (Expr.Parallel (Token.SharePlace (tokenize "1/0") (tokenize " 1 / 0")))
        (Fault.Parallel (Parser.OrEnd (Token.SharePlace (tokenize "1/0") (tokenize " 1 / 0")) (.ofOffset 3)
          (.ofOffset 6)))
        (Expr.parse (tokenize "1/0")) (Expr.parse (tokenize " 1 / 0")) ∧
      runLine ⟨true⟩ "1/0" = .error ⟨.divisionByZero, .ofOffset 1⟩ ∧
      runLine ⟨true⟩ " 1 / 0" = .error ⟨.divisionByZero, .ofOffset 3⟩ ∧
      InParallel Eq (fun left right => left.cause = right.cause) (runLine ⟨true⟩ "1/0") (runLine ⟨true⟩ " 1 / 0") := by
  have htokens : tokenize "1/0" =
      [⟨.integer, "1", .ofOffset 0 1⟩, ⟨.slash, "/", .ofOffset 1 1⟩, ⟨.integer, "0", .ofOffset 2 1⟩,
        .endOfInput (.ofOffset 3)] := by decide +kernel
  have hothers : tokenize " 1 / 0" =
      [⟨.integer, "1", .ofOffset 1 1⟩, ⟨.slash, "/", .ofOffset 3 1⟩, ⟨.integer, "0", .ofOffset 5 1⟩,
        .endOfInput (.ofOffset 6)] := by decide +kernel
  have halike : List.Forall₂ Token.Alike (tokenize "1/0") (tokenize " 1 / 0") := by
    rw [htokens, hothers]
    exact .cons ⟨rfl, rfl⟩ (.cons ⟨rfl, rfl⟩ (.cons ⟨rfl, rfl⟩ (.cons ⟨rfl, rfl⟩ .nil)))
  have hleftEnd : Token.finish .start (tokenize "1/0") = .ofOffset 3 := by rw [htokens]; rfl
  have hrightEnd : Token.finish .start (tokenize " 1 / 0") = .ofOffset 6 := by rw [hothers]; rfl
  have hparse := (meaning_eq_of_alike_tokens.1 _ _ halike).1
  rw [hleftEnd, hrightEnd] at hparse
  exact ⟨halike, hparse, by decide +kernel, by decide +kernel, meaning_eq_of_alike_tokens.2 _ _ _ halike⟩

end Abacus
