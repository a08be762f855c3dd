import Abacus.Proofs.Expr.Row
import Abacus.Proofs.Expr.Value

/-!
# Reading a row

The parser keeps unfinished operands in frames. Closing all of them at any time gives the expression of the row
read so far: the frames bind ever stronger toward the innermost, so closing those that bind at least as strongly
as the next operator puts the next operand exactly where a row takes it in. Reading therefore succeeds on the
tokens of a row, up to an end of the input, with the expression of that row. On any other tokens it fails at the
first token that no row could go on with.
-/

namespace Abacus

def Token.unexpected (token : Token) : Fault :=
  if token.kind = .endOfInput then ⟨.unexpectedEndOfInput, token.position⟩
  else ⟨.illegalToken token.literal, token.position⟩

namespace Parser

theorem unexpected_eq (parser : Parser) : parser.unexpected = parser.current.unexpected := rfl

/-! ### Frames -/

/-- The expression that open frames stand for around an expression. -/
def closeAll (frames : List Frame) (expr : Expr) : Expr :=
  frames.foldl (fun expr frame => .binary frame.operator frame.left expr) expr

/-- Frames bind ever stronger toward the innermost, as strongly as their operators do in arithmetic. -/
structure Nested (frames : List Frame) : Prop where
  stronger : frames.Pairwise fun inner outer => outer.power.rank < inner.power.rank
  rank_power : ∀ frame ∈ frames, frame.power.rank = frame.operator.kind.rank

theorem Nested.nil : Nested [] :=
  ⟨List.Pairwise.nil, by simp⟩

theorem Nested.tail {frame : Frame} {frames : List Frame} (h : Nested (frame :: frames)) : Nested frames := by
  refine ⟨(List.pairwise_cons.mp h.stronger).2, ?_⟩
  intro other hmem
  exact h.rank_power other (List.mem_cons_of_mem frame hmem)

theorem Nested.cons {frame : Frame} {frames : List Frame} (h : Nested frames)
    (hstronger : ∀ outer ∈ frames, outer.power.rank < frame.power.rank)
    (hpower : frame.power.rank = frame.operator.kind.rank) : Nested (frame :: frames) := by
  refine ⟨List.pairwise_cons.mpr ⟨hstronger, h.stronger⟩, ?_⟩
  intro other hmem
  rcases List.mem_cons.mp hmem with rfl | hmem
  · exact hpower
  · exact h.rank_power other hmem

theorem extend_closeAll {frames : List Frame} (h : Nested frames) {operator : Token}
    (hweaker : ∀ frame ∈ frames, frame.power.rank < operator.kind.rank) (operand expr : Expr) :
    (closeAll frames expr).extend operator operand = closeAll frames (expr.extend operator operand) := by
  induction frames generalizing expr with
  | nil => rfl
  | cons frame frames ih =>
    have hframe : frame.operator.kind.rank < operator.kind.rank := by
      rw [← h.rank_power frame List.mem_cons_self]
      exact hweaker frame List.mem_cons_self
    have hrest := ih h.tail (fun other hmem => hweaker other (List.mem_cons_of_mem frame hmem))
      (.binary frame.operator frame.left expr)
    rw [Expr.extend_of_lt operand hframe] at hrest
    exact hrest

section CloseFrames

variable {frames : List Frame} {expr : Expr} {events : List Event} {power : BindingPower}

/-- What closing one frame preserves, closing frames preserves. -/
theorem closeFrames_invariant (invariant : Progress → Prop)
    (hclose : ∀ frame frames expr events, ¬ frame.power.rank < power.rank → invariant ⟨frame :: frames, expr, events⟩ →
      invariant ⟨frames, .binary frame.operator frame.left expr, .closing frame.operator frames.length :: events⟩)
    (h : invariant ⟨frames, expr, events⟩) : invariant (closeFrames power frames expr events) := by
  induction frames generalizing expr events with
  | nil => exact h
  | cons frame frames ih =>
    rw [closeFrames]
    split
    · exact h
    · rename_i hge
      exact ih (hclose frame frames expr events hge h)

variable (frames expr events power) in
theorem closeAll_closeFrames :
    closeAll (closeFrames power frames expr events).frames (closeFrames power frames expr events).expr =
      closeAll frames expr := by
  refine closeFrames_invariant (fun progress => closeAll progress.frames progress.expr = closeAll frames expr) ?_ rfl
  intro frame frames expr events _ h
  exact h

variable (frames expr events power) in
theorem closeFrames_suffix : (closeFrames power frames expr events).frames <:+ frames := by
  refine closeFrames_invariant (fun progress => progress.frames <:+ frames) ?_ (List.suffix_refl _)
  intro frame frames expr events _ h
  exact (List.suffix_cons frame frames).trans h

theorem nested_closeFrames (h : Nested frames) : Nested (closeFrames power frames expr events).frames := by
  have hsuffix := closeFrames_suffix frames expr events power
  exact ⟨h.stronger.sublist hsuffix.sublist, fun frame hmem => h.rank_power frame (hsuffix.subset hmem)⟩

theorem power_lt_of_mem_closeFrames (h : frames.Pairwise fun inner outer => outer.power.rank < inner.power.rank) :
    ∀ frame ∈ (closeFrames power frames expr events).frames, frame.power.rank < power.rank := by
  induction frames generalizing expr events with
  | nil => simp [closeFrames]
  | cons frame frames ih =>
    rw [closeFrames]
    split
    · rename_i hlt
      intro other hmem
      rcases List.mem_cons.mp hmem with rfl | hmem
      · exact hlt
      · exact Nat.lt_trans ((List.pairwise_cons.mp h).1 other hmem) hlt
    · exact ih (List.pairwise_cons.mp h).2

theorem rank_le_closeFrames (h : Nested frames) (hexpr : power.rank ≤ expr.rank) :
    power.rank ≤ (closeFrames power frames expr events).expr.rank := by
  induction frames generalizing expr events with
  | nil => exact hexpr
  | cons frame frames ih =>
    rw [closeFrames]
    split
    · exact hexpr
    · rename_i hge
      refine ih h.tail ?_
      rw [h.rank_power frame List.mem_cons_self] at hge
      exact Nat.not_lt.mp hge

theorem closeFrames_lowest :
    (closeFrames .lowest frames expr events).expr = closeAll frames expr := by
  induction frames generalizing expr events with
  | nil => rfl
  | cons frame frames ih =>
    have hrank : ¬ frame.power.rank < BindingPower.lowest.rank := Nat.not_lt_zero _
    rw [closeFrames, if_neg hrank]
    exact ih

/-- Closing the frames that bind at least as strongly as an operator, and opening one for it, takes its operand
in at the right edge. -/
theorem closeAll_open (h : Nested frames) {operator : Token} (hexpr : expr.rank = 3)
    (hpower : power.rank = operator.kind.rank) (operand : Expr) :
    closeAll (⟨(closeFrames power frames expr events).expr, operator, power⟩ ::
        (closeFrames power frames expr events).frames) operand =
      (closeAll frames expr).extend operator operand := by
  have hle := operator.kind.rank_le_two
  have hrank : operator.kind.rank ≤ (closeFrames power frames expr events).expr.rank := by
    rw [← hpower]
    exact rank_le_closeFrames h (by omega)
  have hweaker : ∀ frame ∈ (closeFrames power frames expr events).frames,
      frame.power.rank < operator.kind.rank := by
    rw [← hpower]
    exact power_lt_of_mem_closeFrames h.stronger
  rw [← closeAll_closeFrames frames expr events power, extend_closeAll (nested_closeFrames h) hweaker,
    Expr.extend_of_le operand hrank]
  rfl

theorem nested_open (h : Nested frames) {operator : Token} (hpower : power.rank = operator.kind.rank) :
    Nested (⟨(closeFrames power frames expr events).expr, operator, power⟩ ::
      (closeFrames power frames expr events).frames) :=
  (nested_closeFrames h).cons (power_lt_of_mem_closeFrames h.stronger) hpower

end CloseFrames

/-! ### Operands -/

theorem signs_append {parser : Parser} {signs pending : List Token} {token : Token}
    (hpending : parser.pending = signs ++ token :: pending) (hsigns : ∀ sign ∈ signs, sign.isSign = true)
    (htoken : token.isSign = false) :
    parser.signs = signs ∧ parser.skipSigns.pending = token :: pending := by
  constructor
  · rw [Parser.signs, hpending, List.takeWhile_append_of_pos hsigns, List.takeWhile_cons_of_neg (by simp [htoken]),
      List.append_nil]
  · rw [skipSigns, hpending, List.dropWhile_append_of_pos hsigns, List.dropWhile_cons_of_neg (by simp [htoken])]

theorem expect_of_kind {parser : Parser} {kind : TokenKind} {token : Token} {pending : List Token}
    (hpending : parser.pending = token :: pending) (hkind : token.kind = kind) :
    parser.expect kind = (.ok token, ⟨pending, token.span.stop, parser.grammar⟩) := by
  have hcurrent : parser.current.kind = kind := by rw [current, hpending]; exact hkind
  rw [expect, if_pos hcurrent, advance, hpending]

theorem expect_of_ne {parser : Parser} {kind : TokenKind} {token : Token} {pending : List Token}
    (hpending : parser.pending = token :: pending) (hkind : token.kind ≠ kind) :
    parser.expect kind = (.error token.unexpected, parser) := by
  have hcurrent : parser.current = token := by rw [current, hpending]; rfl
  rw [expect, if_neg (by rwa [hcurrent]), unexpected_eq, hcurrent]

theorem isSign_of_integer {token : Token} (h : token.kind = .integer) : token.isSign = false := by
  rw [Token.isSign, h]
  rfl

theorem skipSigns_of_not_isSign (parser : Parser) (h : parser.current.isSign = false) :
    parser.signs = [] ∧ parser.skipSigns = parser := by
  rcases parser with ⟨pending, reached, grammar⟩
  cases pending with
  | nil => exact ⟨rfl, rfl⟩
  | cons token pending =>
    have htoken : ¬ token.isSign = true := by
      rw [show token.isSign = false from h]
      simp
    have hsigns : Parser.signs ⟨token :: pending, reached, grammar⟩ = [] := List.takeWhile_cons_of_neg htoken
    refine ⟨hsigns, ?_⟩
    rw [skipSigns, hsigns, List.dropWhile_cons_of_neg htoken]
    rfl

theorem skipSigns_of_isSign (parser : Parser) (h : parser.current.isSign = true) :
    parser.signs = parser.current :: parser.advance.2.signs ∧ parser.skipSigns = parser.advance.2.skipSigns := by
  rcases parser with ⟨pending, reached, grammar⟩
  cases pending with
  | nil => exact absurd h Bool.false_ne_true
  | cons token pending =>
    have htoken : token.isSign = true := h
    refine ⟨List.takeWhile_cons_of_pos htoken, ?_⟩
    simp [skipSigns, advance, Parser.signs, htoken]

/-- In arithmetic every operand is read as an integer behind signs, of which there may be none. -/
theorem operand_eq_signed {parser : Parser} (hgrammar : parser.grammar = .arithmetic) :
    parser.operand = parser.signed := by
  unfold operand
  rw [hgrammar]
  cases hkind : parser.current.kind
  case plus => rfl
  case minus => rfl
  all_goals
    obtain ⟨hsigns, hskip⟩ := skipSigns_of_not_isSign parser (by rw [Token.isSign, hkind]; rfl)
    rw [signed, hskip, hsigns]
  case integer => rfl
  all_goals
    rw [expect, if_neg (by rw [hkind]; simp)]
    rfl

theorem operand_tokens {parser : Parser} {operand : Operand} {rest : List Token}
    (hgrammar : parser.grammar = .arithmetic) (hpending : parser.pending = operand.tokens ++ rest) :
    parser.operand = (.ok operand.expr, ⟨rest, operand.integer.span.stop, .arithmetic⟩) := by
  have hsplit : parser.pending = operand.signs ++ operand.integer :: rest := by
    rw [hpending, Operand.tokens, List.append_assoc, List.singleton_append]
  obtain ⟨hsigns, hskip⟩ :=
    signs_append hsplit operand.isSign_of_mem (isSign_of_integer operand.kind_integer)
  rw [operand_eq_signed hgrammar, signed, expect_of_kind hskip operand.kind_integer, hsigns,
    show parser.skipSigns.grammar = .arithmetic from hgrammar]
  rfl

/-! ### The loop over operators -/

section Resume

variable {parser : Parser} {progress : Progress}

theorem resume_of_end (hend : parser.current.kind = .endOfInput) :
    (parser.resume progress).outcome = .ok (closeAll progress.frames progress.expr) ∧
      (parser.resume progress).parser = parser := by
  rw [resume, dif_pos hend]
  exact ⟨congrArg Except.ok closeFrames_lowest, rfl⟩

theorem resume_of_lowest (hend : parser.current.kind ≠ .endOfInput)
    (hpower : parser.grammar.power parser.current.kind = .lowest) :
    (parser.resume progress).outcome = .error parser.unexpected := by
  rw [resume, dif_neg hend, if_pos hpower]

theorem resume_of_operand (hend : parser.current.kind ≠ .endOfInput)
    (hpower : parser.grammar.power parser.current.kind ≠ .lowest) {operand : Expr} {rest : Parser}
    (hoperand : parser.advance.2.operand = (.ok operand, rest)) :
    parser.resume progress =
      rest.resume (progress.join parser.current (parser.grammar.power parser.current.kind) operand) := by
  rw [resume, dif_neg hend, if_neg hpower]
  split
  · rename_i expr next hnext
    obtain ⟨hexpr, rfl⟩ := Prod.mk.inj (hoperand.symm.trans hnext)
    obtain rfl := Except.ok.inj hexpr
    rfl
  · rename_i fault next hnext
    exact absurd (Prod.mk.inj (hoperand.symm.trans hnext)).1 (by simp)

theorem resume_of_operand_error (hend : parser.current.kind ≠ .endOfInput)
    (hpower : parser.grammar.power parser.current.kind ≠ .lowest) {fault : Fault} {rest : Parser}
    (hoperand : parser.advance.2.operand = (.error fault, rest)) :
    (parser.resume progress).outcome = .error fault := by
  rw [resume, dif_neg hend, if_neg hpower]
  split
  · rename_i expr next hnext
    exact absurd (Prod.mk.inj (hoperand.symm.trans hnext)).1 (by simp)
  · rename_i other next hnext
    exact (Prod.mk.inj (hnext.symm.trans hoperand)).1 ▸ rfl

theorem length_pending_lt_of_operand (hend : parser.current.kind ≠ .endOfInput) {outcome : Except Fault Expr}
    {rest : Parser} (hoperand : parser.advance.2.operand = (outcome, rest)) :
    rest.pending.length < parser.pending.length := by
  have hle := length_pending_operand_le parser.advance.2
  rw [hoperand] at hle
  exact Nat.lt_of_le_of_lt hle (length_pending_advance_lt parser hend)

/-- A reading that succeeds stops before the end of the input. -/
theorem kind_current_resume {expr : Expr} (h : (parser.resume progress).outcome = .ok expr) :
    (parser.resume progress).parser.current.kind = .endOfInput := by
  fun_induction resume parser progress with
  | case1 parser progress hend => exact hend
  | case2 => simp at h
  | case3 parser progress hend power hpower operator operand rest hoperand ih => exact ih h
  | case4 => simp at h

end Resume

def AtEnd (tokens : List Token) : Prop :=
  ∀ token ∈ tokens.head?, token.kind = .endOfInput

theorem kind_current_of_atEnd {parser : Parser} (h : AtEnd parser.pending) :
    parser.current.kind = .endOfInput := by
  rcases parser with ⟨pending, reached, grammar⟩
  cases pending with
  | nil => rfl
  | cons token pending => exact h token rfl

theorem power_ne_lowest {token : Token} (h : 0 < token.kind.rank) :
    Grammar.arithmetic.power token.kind ≠ .lowest := by
  intro hlowest
  rw [TokenKind.rank, hlowest] at h
  exact Nat.lt_irrefl 0 h

theorem power_eq_lowest {token : Token} (h : token.kind.rank = 0) :
    Grammar.arithmetic.power token.kind = .lowest := by
  unfold TokenKind.rank at h
  cases hpower : Grammar.arithmetic.power token.kind <;> simp [hpower, BindingPower.rank] at h ⊢

theorem kind_ne_endOfInput {token : Token} (h : 0 < token.kind.rank) : token.kind ≠ .endOfInput := by
  intro hend
  rw [hend] at h
  exact absurd h (by decide)

/-- Reading an operator and its operand joins them to the progress so far. -/
theorem resume_joint {joint : Joint} {more : List Token} {parser : Parser} (hgrammar : parser.grammar = .arithmetic)
    (hpending : parser.pending = joint.tokens ++ more) (progress : Progress) :
    parser.resume progress =
      resume ⟨more, joint.operand.integer.span.stop, .arithmetic⟩
        (progress.join joint.operator (Grammar.arithmetic.power joint.operator.kind) joint.operand.expr) := by
  have hcurrent : parser.current = joint.operator := by rw [current, hpending]; rfl
  have hadvance : parser.advance.2 = ⟨joint.operand.tokens ++ more, joint.operator.span.stop, .arithmetic⟩ := by
    rw [advance, hpending, hgrammar]
    rfl
  have hoperand : parser.advance.2.operand =
      (.ok joint.operand.expr, ⟨more, joint.operand.integer.span.stop, .arithmetic⟩) :=
    operand_tokens (by rw [hadvance]) (by rw [hadvance])
  have hend : parser.current.kind ≠ .endOfInput := by
    rw [hcurrent]
    exact kind_ne_endOfInput joint.rank_pos
  have hpower : parser.grammar.power parser.current.kind ≠ .lowest := by
    rw [hcurrent, hgrammar]
    exact power_ne_lowest joint.rank_pos
  rw [resume_of_operand hend hpower hoperand, hcurrent, hgrammar]

theorem resume_joints {joints : List Joint} {rest : List Token} (hrest : AtEnd rest) {parser : Parser}
    (hgrammar : parser.grammar = .arithmetic) (hpending : parser.pending = joints.flatMap Joint.tokens ++ rest)
    {progress : Progress} (hnested : Nested progress.frames) (hexpr : progress.expr.rank = 3) :
    (parser.resume progress).outcome =
      .ok (Joint.extendAll (closeAll progress.frames progress.expr) joints) := by
  induction joints generalizing parser progress with
  | nil =>
    have hend : AtEnd parser.pending := by rwa [hpending]
    exact (resume_of_end (kind_current_of_atEnd hend)).1
  | cons joint joints ih =>
    rw [List.flatMap_cons, List.append_assoc] at hpending
    rw [resume_joint hgrammar hpending, ih rfl rfl (nested_open hnested rfl) joint.operand.rank_expr,
      Joint.extendAll_cons, Joint.extend]
    congr 2
    exact closeAll_open hnested hexpr rfl joint.operand.expr

/-! ### The first token out of place -/

inductive Awaited where
  | operand
  | operator

/-- The first token that no row could go on with, where the end of the input is met at `reached` once the tokens
run out. -/
def offender : Awaited → Position → List Token → Option Token
  | .operand, reached, [] => some (.endOfInput reached)
  | .operand, _, token :: tokens =>
    if token.isSign then offender .operand token.span.stop tokens
    else if token.kind = .integer then offender .operator token.span.stop tokens
    else some token
  | .operator, _, [] => none
  | .operator, _, token :: tokens =>
    if token.kind = .endOfInput then none
    else if token.kind.rank = 0 then some token
    else offender .operand token.span.stop tokens

theorem exists_row_of_offender (tokens : List Token) (reached : Position) :
    (offender .operand reached tokens = none → ∃ (row : Row) (rest : List Token),
      tokens = row.tokens ++ rest ∧ AtEnd rest) ∧
    (offender .operator reached tokens = none → ∃ (joints : List Joint) (rest : List Token),
      tokens = joints.flatMap Joint.tokens ++ rest ∧ AtEnd rest) := by
  induction tokens generalizing reached with
  | nil =>
    constructor
    · intro h
      simp [offender] at h
    · intro h
      exact ⟨[], [], rfl, by simp [AtEnd]⟩
  | cons token tokens ih =>
    obtain ⟨ihoperand, ihoperator⟩ := ih token.span.stop
    constructor
    · intro h
      rw [offender] at h
      by_cases hsign : token.isSign = true
      · rw [if_pos hsign] at h
        obtain ⟨⟨first, joints⟩, rest, rfl, hrest⟩ := ihoperand h
        have hsigns : ∀ sign ∈ token :: first.signs, sign.isSign = true :=
          List.forall_mem_cons.mpr ⟨hsign, first.isSign_of_mem⟩
        exact ⟨⟨⟨token :: first.signs, first.integer, hsigns, first.kind_integer⟩, joints⟩, rest, rfl, hrest⟩
      · rw [if_neg hsign] at h
        by_cases hinteger : token.kind = .integer
        · rw [if_pos hinteger] at h
          obtain ⟨joints, rest, rfl, hrest⟩ := ihoperator h
          exact ⟨⟨⟨[], token, by simp, hinteger⟩, joints⟩, rest, rfl, hrest⟩
        · rw [if_neg hinteger] at h
          simp at h
    · intro h
      rw [offender] at h
      by_cases hend : token.kind = .endOfInput
      · refine ⟨[], token :: tokens, rfl, ?_⟩
        intro first hfirst
        obtain rfl := Option.mem_some.mp hfirst
        exact hend
      · rw [if_neg hend] at h
        by_cases hrank : token.kind.rank = 0
        · rw [if_pos hrank] at h
          simp at h
        · rw [if_neg hrank] at h
          obtain ⟨⟨first, joints⟩, rest, rfl, hrest⟩ := ihoperand h
          refine ⟨⟨token, first, Nat.pos_of_ne_zero hrank⟩ :: joints, rest, ?_, hrest⟩
          simp [Row.tokens, Joint.tokens]

theorem offender_skipSigns (parser : Parser) :
    offender .operand parser.skipSigns.reached parser.skipSigns.pending =
      offender .operand parser.reached parser.pending := by
  rcases parser with ⟨pending, reached, grammar⟩
  induction pending generalizing reached with
  | nil => rfl
  | cons token pending ih =>
    by_cases hsign : token.isSign = true
    · rw [(skipSigns_of_isSign ⟨token :: pending, reached, grammar⟩ hsign).2, offender, if_pos hsign]
      exact ih token.span.stop
    · rw [(skipSigns_of_not_isSign _ (Bool.not_eq_true _ ▸ hsign)).2]

theorem isSign_current_skipSigns (parser : Parser) : parser.skipSigns.current.isSign = false := by
  rcases hpending : parser.skipSigns.pending with _ | ⟨token, pending⟩
  · rw [current, hpending]
    rfl
  · have hdrop : parser.pending.dropWhile Token.isSign = token :: pending := hpending
    have hhead := List.head_dropWhile_not Token.isSign (by rw [hdrop]; simp)
    simp only [hdrop, List.head_cons] at hhead
    rw [current, hpending]
    exact hhead

/-- What is out of place behind an operand that was read is what was out of place before it. -/
theorem operand_of_offender {parser : Parser} (hgrammar : parser.grammar = .arithmetic) :
    (∃ expr rest, parser.operand = (.ok expr, rest) ∧ rest.grammar = .arithmetic ∧
      offender .operator rest.reached rest.pending = offender .operand parser.reached parser.pending) ∨
    (∃ token rest, parser.operand = (.error token.unexpected, rest) ∧
      offender .operand parser.reached parser.pending = some token) := by
  have hsign := isSign_current_skipSigns parser
  rw [operand_eq_signed hgrammar, signed, ← offender_skipSigns]
  rcases hskip : parser.skipSigns with ⟨pending, reached, grammar⟩
  have harithmetic : grammar = .arithmetic := by
    rw [← hgrammar]
    exact (congrArg Parser.grammar hskip).symm
  rw [hskip] at hsign
  cases pending with
  | nil => exact Or.inr ⟨_, _, rfl, rfl⟩
  | cons token pending =>
    have hnotSign : ¬ token.isSign = true := by
      rw [show token.isSign = false from hsign]
      simp
    simp only [offender, if_neg hnotSign]
    by_cases hinteger : token.kind = .integer
    · refine Or.inl ⟨.signed token parser.signs, ⟨pending, token.span.stop, grammar⟩, ?_, harithmetic, ?_⟩
      · rw [expect_of_kind rfl hinteger]
      · rw [if_pos hinteger]
    · refine Or.inr ⟨token, ⟨token :: pending, reached, grammar⟩, ?_, if_neg hinteger⟩
      rw [expect_of_ne rfl hinteger]

theorem faultOf_resume {parser : Parser} (hgrammar : parser.grammar = .arithmetic) (progress : Progress) :
    faultOf (parser.resume progress).outcome =
      (offender .operator parser.reached parser.pending).map Token.unexpected := by
  -- an operand takes several tokens, so the induction is on how many are pending
  induction hlength : parser.pending.length using Nat.strongRecOn generalizing parser progress with
  | ind length ih =>
    subst hlength
    cases hpending : parser.pending with
    | nil =>
      have hend : parser.current.kind = .endOfInput := by rw [current, hpending]; rfl
      rw [(resume_of_end hend).1]
      rfl
    | cons token pending =>
      have hcurrent : parser.current = token := by rw [current, hpending]; rfl
      have hadvance : parser.advance.2 = ⟨pending, token.span.stop, .arithmetic⟩ := by
        rw [advance, hpending, hgrammar]
      rw [offender, ← hcurrent]
      by_cases hend : parser.current.kind = .endOfInput
      · rw [if_pos hend, (resume_of_end hend).1]
        rfl
      · rw [if_neg hend]
        by_cases hrank : parser.current.kind.rank = 0
        · rw [if_pos hrank, resume_of_lowest hend (hgrammar ▸ power_eq_lowest hrank)]
          rfl
        · rw [if_neg hrank]
          have hpower : parser.grammar.power parser.current.kind ≠ .lowest :=
            hgrammar ▸ power_ne_lowest (Nat.pos_of_ne_zero hrank)
          have hoffender : offender .operand parser.advance.2.reached parser.advance.2.pending =
              offender .operand parser.current.span.stop pending := by
            rw [hadvance, hcurrent]
          rw [← hoffender]
          rcases operand_of_offender (show parser.advance.2.grammar = .arithmetic by rw [hadvance]) with
            ⟨expr, rest, hoperand, hrest, hsame⟩ | ⟨other, rest, hoperand, hother⟩
          · have hshorter := length_pending_lt_of_operand hend hoperand
            rw [resume_of_operand hend hpower hoperand, ih _ hshorter hrest _ rfl, hsame]
          · rw [resume_of_operand_error hend hpower hoperand, hother]
            rfl

theorem kind_current_expression {parser : Parser} {expr : Expr} (h : parser.expression.outcome = .ok expr) :
    parser.expression.parser.current.kind = .endOfInput := by
  unfold expression at h ⊢
  rcases hoperand : parser.operand with ⟨outcome, rest⟩
  rw [hoperand] at h
  cases outcome with
  | ok first => exact kind_current_resume h
  | error fault => simp at h

/-- The end of the input that is expected behind an expression is always there. -/
theorem outcome_arithmetic (tokens : List Token) :
    (arithmetic tokens).outcome = (ofTokens tokens .arithmetic).expression.outcome := by
  cases houtcome : (ofTokens tokens .arithmetic).expression.outcome with
  | error fault => simp only [arithmetic, houtcome]
  | ok expr =>
    simp only [arithmetic, houtcome, expect, if_pos (kind_current_expression houtcome)]

end Parser

namespace Expr

theorem parse_tokens (row : Row) {rest : List Token} (hrest : Parser.AtEnd rest) :
    parse (row.tokens ++ rest) = .ok row.expr := by
  have hoperand : (Parser.ofTokens (row.tokens ++ rest) .arithmetic).operand =
      (.ok row.first.expr,
        ⟨row.joints.flatMap Joint.tokens ++ rest, row.first.integer.span.stop, .arithmetic⟩) :=
    Parser.operand_tokens rfl (List.append_assoc _ _ _)
  rw [parse, Parser.outcome_arithmetic, Parser.expression, hoperand]
  exact Parser.resume_joints hrest rfl rfl .nil row.first.rank_expr

theorem faultOf_parse (tokens : List Token) :
    faultOf (parse tokens) = (Parser.offender .operand .start tokens).map Token.unexpected := by
  rw [parse, Parser.outcome_arithmetic, Parser.expression]
  rcases Parser.operand_of_offender (show (Parser.ofTokens tokens .arithmetic).grammar = .arithmetic from rfl) with
    ⟨expr, rest, hoperand, hrest, hsame⟩ | ⟨token, rest, hoperand, hoffender⟩
  · rw [hoperand]
    exact (Parser.faultOf_resume hrest _).trans (congrArg _ hsame)
  · rw [hoperand, show Parser.offender .operand .start tokens = some token from hoffender]
    rfl

/-- What can be read is the tokens of a row, up to an end of the input. -/
theorem exists_row_of_parse {tokens : List Token} {expr : Expr} (h : parse tokens = .ok expr) :
    ∃ (row : Row) (rest : List Token), tokens = row.tokens ++ rest ∧ Parser.AtEnd rest ∧ row.expr = expr := by
  have hnone : Parser.offender .operand .start tokens = none := by
    have hfault := faultOf_parse tokens
    rw [h] at hfault
    exact Option.map_eq_none_iff.mp hfault.symm
  obtain ⟨row, rest, rfl, hrest⟩ := (Parser.exists_row_of_offender tokens .start).1 hnone
  rw [parse_tokens row hrest] at h
  exact ⟨row, rest, rfl, hrest, Except.ok.inj h⟩

theorem exists_offender_of_parse {tokens : List Token} {fault : Fault} (h : parse tokens = .error fault) :
    ∃ token, Parser.offender .operand .start tokens = some token ∧ token.unexpected = fault := by
  have hfault := faultOf_parse tokens
  rw [h] at hfault
  exact Option.map_eq_some_iff.mp hfault.symm

end Expr

theorem Row.kind_ne_endOfInput {row : Row} {token : Token} (h : token ∈ row.tokens) :
    token.kind ≠ .endOfInput := by
  rcases Row.kind_of_mem h with hinteger | hrank
  · rw [hinteger]
    exact TokenKind.noConfusion
  · exact Parser.kind_ne_endOfInput hrank

theorem Parser.takeWhile_append_atEnd {tokens rest : List Token}
    (htokens : ∀ token ∈ tokens, token.kind ≠ .endOfInput) (hrest : AtEnd rest) :
    (tokens ++ rest).takeWhile (fun token => decide (token.kind ≠ .endOfInput)) = tokens := by
  rw [List.takeWhile_append_of_pos fun token hmem => decide_eq_true (htokens token hmem)]
  cases rest with
  | nil => simp
  | cons stop rest =>
    have hstop : stop.kind = .endOfInput := hrest stop rfl
    rw [List.takeWhile_cons_of_neg (by simp [hstop]), List.append_nil]

namespace Expr

theorem parse_append_eq_ok_iff {tokens rest : List Token}
    (htokens : ∀ token ∈ tokens, token.kind ≠ .endOfInput) (hrest : Parser.AtEnd rest) (expr : Expr) :
    parse (tokens ++ rest) = .ok expr ↔ expr.WellGrouped ∧ expr.tokens = tokens := by
  constructor
  · intro hparse
    obtain ⟨row, others, hsplit, hothers, rfl⟩ := exists_row_of_parse hparse
    refine ⟨row.wellGrouped_expr, ?_⟩
    calc row.expr.tokens
        = row.tokens := row.tokens_expr
      _ = (row.tokens ++ others).takeWhile fun token => decide (token.kind ≠ .endOfInput) :=
        (Parser.takeWhile_append_atEnd (fun _ => Row.kind_ne_endOfInput) hothers).symm
      _ = tokens := by rw [← hsplit, Parser.takeWhile_append_atEnd htokens hrest]
  · rintro ⟨hwell, rfl⟩
    obtain ⟨row, rfl⟩ := exists_row hwell
    rw [row.tokens_expr]
    exact parse_tokens row hrest

/-- **Reading is the inverse of writing out in order.** Tokens are read as an expression exactly when it is
well grouped and they are its tokens; an end of the input hides whatever follows it. -/
theorem parse_eq_ok_iff_wellGrouped {tokens : List Token} (htokens : ∀ token ∈ tokens, token.kind ≠ .endOfInput)
    (expr : Expr) :
    (parse tokens = .ok expr ↔ expr.WellGrouped ∧ expr.tokens = tokens) ∧
      ∀ (stop : Token) (rest : List Token), stop.kind = .endOfInput →
        (parse (tokens ++ [stop] ++ rest) = .ok expr ↔ expr.WellGrouped ∧ expr.tokens = tokens) := by
  constructor
  · have hatEnd : Parser.AtEnd [] := by simp [Parser.AtEnd]
    have hnil := parse_append_eq_ok_iff htokens hatEnd expr
    rwa [List.append_nil] at hnil
  · intro stop rest hstop
    rw [List.append_assoc, List.singleton_append]
    refine parse_append_eq_ok_iff htokens ?_ expr
    intro token htoken
    obtain rfl := Option.mem_some.mp htoken
    exact hstop

/-- The tokens of `1-2*-3`, read with the product below the difference. -/
theorem parse_eq_ok_difference :
    parse [⟨.integer, "1", .ofOffset 0 1⟩, ⟨.minus, "-", .ofOffset 1 1⟩, ⟨.integer, "2", .ofOffset 2 1⟩,
        ⟨.asterisk, "*", .ofOffset 3 1⟩, ⟨.minus, "-", .ofOffset 4 1⟩, ⟨.integer, "3", .ofOffset 5 1⟩] =
      .ok (binary ⟨.minus, "-", .ofOffset 1 1⟩ (literal ⟨.integer, "1", .ofOffset 0 1⟩)
        (binary ⟨.asterisk, "*", .ofOffset 3 1⟩ (literal ⟨.integer, "2", .ofOffset 2 1⟩)
          (chain ⟨.integer, "3", .ofOffset 5 1⟩ [⟨.minus, "-", .ofOffset 4 1⟩]))) := by
  refine (parse_eq_ok_iff_wellGrouped (by simp) _).1.mpr ⟨?_, rfl⟩
  simp [WellGrouped, IsSum, IsLeaf]

end Expr

end Abacus
