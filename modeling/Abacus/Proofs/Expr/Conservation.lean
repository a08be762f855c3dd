import Abacus.Proofs.Expr.Reading

/-!
# Tokens are conserved

Whatever has been done to a parser, it stands at some place of its stream, which goes on past the last token with ends
of the input. A call that reads from there advances over a run of tokens and does nothing else to the parser. What it
finds is made of exactly these tokens in their order; if it fails, the token that it could not use is the current one.
The run of `Parser.resume` rests on one step: the tokens of all open frames together with the current operand are those
passed so far, however the frames are closed.
-/

namespace Abacus

namespace Token

/-- Where the last of some tokens ends, or `reached` if there are none. -/
def finish (reached : Position) : List Token → Position
  | [] => reached
  | token :: tokens => finish token.span.stop tokens

/-- The tokens of a stream, continued without end by ends of the input behind the last one. -/
def continued (tokens : List Token) (place : Nat) : Token :=
  tokens[place]?.getD (.endOfInput (finish .start tokens))

end Token

namespace Parser

/-- The token that is current after a number of advances. -/
def upcoming (parser : Parser) : Nat → Token
  | 0 => parser.current
  | count + 1 => parser.advance.2.upcoming count

def StandsAt (parser : Parser) (tokens : List Token) (place : Nat) : Prop :=
  ∀ count, parser.upcoming count = Token.continued tokens (place + count)

theorem upcoming_eq (parser : Parser) (count : Nat) :
    parser.upcoming count =
      parser.pending[count]?.getD (.endOfInput (Token.finish parser.reached parser.pending)) := by
  induction count generalizing parser with
  | zero =>
    rcases parser with ⟨_ | ⟨token, pending⟩, reached, grammar⟩ <;> rfl
  | succ count ih =>
    rw [upcoming, ih]
    rcases parser with ⟨_ | ⟨token, pending⟩, reached, grammar⟩ <;> rfl

theorem upcoming_setGrammar (parser : Parser) (grammar : Grammar) (count : Nat) :
    upcoming { parser with grammar } count = parser.upcoming count := by
  rw [upcoming_eq, upcoming_eq]

theorem StandsAt.setGrammar {parser : Parser} {tokens : List Token} {place : Nat} (h : parser.StandsAt tokens place)
    (grammar : Grammar) : StandsAt { parser with grammar } tokens place := by
  intro count
  rw [upcoming_setGrammar, h]

theorem standsAt_ofTokens (tokens : List Token) (grammar : Grammar) : (ofTokens tokens grammar).StandsAt tokens 0 := by
  intro count
  rw [upcoming_eq, Nat.zero_add]
  rfl

/-! ### Runs of advances -/

/-- Advancing over the tokens `passed`, one after the other, leads from one parser to another. -/
inductive Passes : Parser → List Token → Parser → Prop
  | nil (parser : Parser) : Passes parser [] parser
  | cons {parser after : Parser} {passed : List Token} (h : Passes parser.advance.2 passed after) :
      Passes parser (parser.advance.1 :: passed) after

theorem advance_fst (parser : Parser) : parser.advance.1 = parser.current := by
  rcases parser with ⟨_ | ⟨token, pending⟩, reached, grammar⟩ <;> rfl

theorem grammar_advance (parser : Parser) : parser.advance.2.grammar = parser.grammar := by
  rcases parser with ⟨_ | ⟨token, pending⟩, reached, grammar⟩ <;> rfl

namespace Passes

variable {parser middle after : Parser} {first second passed : List Token}

theorem append (hfirst : Passes parser first middle) (hsecond : Passes middle second after) :
    Passes parser (first ++ second) after := by
  induction hfirst with
  | nil parser => exact hsecond
  | cons _ ih => exact .cons (ih hsecond)

theorem advance (parser : Parser) : Passes parser [parser.current] parser.advance.2 := by
  rw [← advance_fst]
  exact .cons (.nil _)

theorem grammar_eq (h : Passes parser passed after) : after.grammar = parser.grammar := by
  induction h with
  | nil parser => rfl
  | cons _ ih => rw [ih, grammar_advance]

theorem upcoming_eq (h : Passes parser passed after) (count : Nat) :
    after.upcoming count = parser.upcoming (passed.length + count) := by
  induction h with
  | nil parser => rw [List.length_nil, Nat.zero_add]
  | cons _ ih => rw [ih, List.length_cons, Nat.add_right_comm, upcoming]

theorem getElem?_eq (h : Passes parser passed after) {index : Nat} (hindex : index < passed.length) :
    passed[index]? = some (parser.upcoming index) := by
  induction h generalizing index with
  | nil parser => exact absurd hindex (Nat.not_lt_zero index)
  | cons _ ih =>
    cases index with
    | zero => rw [List.getElem?_cons_zero, advance_fst, upcoming]
    | succ index => exact ih (Nat.lt_of_succ_lt_succ hindex)

theorem standsAt {tokens : List Token} {place : Nat} (h : Passes parser passed after)
    (hplace : parser.StandsAt tokens place) : after.StandsAt tokens (place + passed.length) := by
  intro count
  rw [h.upcoming_eq, hplace, Nat.add_assoc]

end Passes

/-- A call on a parser leaves another one, and gives the tokens that lie between them or the fault of the token
that it has come to. -/
inductive Conserves (parser : Parser) : Except Fault (List Token) → Parser → Prop
  | found {tokens : List Token} {after : Parser} (h : Passes parser tokens after) : Conserves parser (.ok tokens) after
  | refused {passed : List Token} {after : Parser} (h : Passes parser passed after) :
      Conserves parser (.error after.unexpected) after

theorem Conserves.of_passes {parser middle after : Parser} {passed : List Token} {outcome : Except Fault (List Token)}
    (hpassed : Passes parser passed middle) (h : Conserves middle outcome after) :
    Conserves parser (outcome.map (passed ++ ·)) after := by
  cases h with
  | found hfound => exact .found (hpassed.append hfound)
  | refused hrefused => exact .refused (hpassed.append hrefused)

theorem Conserves.exists_passed {parser after : Parser} {outcome : Except Fault (List Token)}
    (h : Conserves parser outcome after) :
    ∃ passed, Passes parser passed after ∧ (∀ fault, outcome = .error fault → fault = after.unexpected) ∧
      ∀ tokens, outcome = .ok tokens → tokens = passed := by
  cases h with
  | found hfound =>
    refine ⟨_, hfound, by simp, ?_⟩
    intro tokens htokens
    exact (Except.ok.inj htokens).symm
  | refused hrefused =>
    refine ⟨_, hrefused, ?_, by simp⟩
    intro fault hfault
    exact (Except.error.inj hfault).symm

/-! ### Operands -/

theorem conserves_expect (parser : Parser) (kind : TokenKind) :
    Conserves parser ((parser.expect kind).1.map fun token => [token]) (parser.expect kind).2 := by
  unfold expect
  split
  · have hadvance := Passes.advance parser
    rw [← advance_fst] at hadvance
    exact .found hadvance
  · exact .refused (.nil parser)

theorem conserves_integer (parser : Parser) :
    Conserves parser (parser.integer.1.map Expr.tokens) parser.integer.2 := by
  have hexpect := conserves_expect parser .integer
  unfold integer
  rcases hcall : parser.expect .integer with ⟨fault | token, rest⟩ <;> rw [hcall] at hexpect <;> exact hexpect

theorem passes_skipSigns (parser : Parser) : Passes parser parser.signs parser.skipSigns := by
  rcases parser with ⟨pending, reached, grammar⟩
  induction pending generalizing reached with
  | nil => exact .nil _
  | cons token pending ih =>
    by_cases hsign : token.isSign = true
    · obtain ⟨hsigns, hskip⟩ := skipSigns_of_isSign ⟨token :: pending, reached, grammar⟩ hsign
      rw [hsigns, hskip]
      exact .cons (ih token.span.stop)
    · obtain ⟨hsigns, hskip⟩ :=
        skipSigns_of_not_isSign ⟨token :: pending, reached, grammar⟩ (Bool.not_eq_true _ ▸ hsign)
      rw [hsigns, hskip]
      exact .nil _

theorem conserves_signed (parser : Parser) :
    Conserves parser (parser.signed.1.map Expr.tokens) parser.signed.2 := by
  have hexpect := (conserves_expect parser.skipSigns .integer).of_passes (passes_skipSigns parser)
  unfold signed
  rcases hcall : parser.skipSigns.expect .integer with ⟨fault | token, rest⟩
  · rw [hcall] at hexpect
    exact hexpect
  · rw [hcall] at hexpect
    rw [Except.map, Expr.tokens_signed]
    exact hexpect

theorem conserves_operand (parser : Parser) :
    Conserves parser (parser.operand.1.map Expr.tokens) parser.operand.2 := by
  unfold operand
  split
  · exact conserves_integer parser
  · exact conserves_signed parser
  · exact .refused (.nil parser)

/-! ### Frames -/

theorem tokens_closeAll (frames : List Frame) (expr : Expr) :
    (closeAll frames expr).tokens =
      frames.reverse.flatMap (fun frame => frame.left.tokens ++ [frame.operator]) ++ expr.tokens := by
  induction frames generalizing expr with
  | nil => rfl
  | cons frame frames ih =>
    have hclose : closeAll (frame :: frames) expr = closeAll frames (.binary frame.operator frame.left expr) := rfl
    rw [hclose, ih, Expr.tokens]
    simp

/-- Taking in an operator and an operand adds their tokens behind those of all frames, whichever of them it closes. -/
theorem tokens_closeAll_join (progress : Progress) (operator : Token) (power : BindingPower) (operand : Expr) :
    (closeAll (progress.join operator power operand).frames operand).tokens =
      (closeAll progress.frames progress.expr).tokens ++ operator :: operand.tokens := by
  rw [← closeAll_closeFrames progress.frames progress.expr progress.events power, tokens_closeAll, tokens_closeAll]
  simp [Progress.join, Progress.openFrame]

theorem conserves_resume {start parser : Parser} {progress : Progress}
    (h : Passes start (closeAll progress.frames progress.expr).tokens parser) :
    Conserves start ((parser.resume progress).outcome.map Expr.tokens) (parser.resume progress).parser := by
  fun_induction resume parser progress with
  | case1 parser progress hend closed =>
    have hclosed : closed.expr = closeAll progress.frames progress.expr := closeFrames_lowest
    rw [← hclosed] at h
    exact .found h
  | case2 parser progress hend power hlowest => exact .refused h
  | case3 parser progress hend power hpower operator operand rest hoperand ih =>
    apply ih
    have hread := conserves_operand parser.advance.2
    rw [hoperand] at hread
    cases hread with
    | found hfound =>
      rw [Progress.expr_join, tokens_closeAll_join]
      exact h.append ((Passes.advance parser).append hfound)
  | case4 parser progress hend power hpower operator fault rest hoperand =>
    have hread := (conserves_operand parser.advance.2).of_passes (h.append (Passes.advance parser))
    rw [hoperand] at hread
    exact hread

theorem conserves_expression (parser : Parser) :
    Conserves parser (parser.expression.outcome.map Expr.tokens) parser.expression.parser := by
  have hread := conserves_operand parser
  unfold expression
  rcases hoperand : parser.operand with ⟨fault | expr, rest⟩
  · rw [hoperand] at hread
    exact hread
  · rw [hoperand] at hread
    cases hread with
    | found hfound => exact conserves_resume hfound

/-! ### Calls in any order -/

/-- A call that reads from a parser. -/
inductive Call where
  | expect (kind : TokenKind)
  | operand
  | integer
  | signed
  | expression

/-- What a call finds, a token or an expression, unless it fails, and the parser after it. -/
def Call.run (parser : Parser) : Call → Except Fault (Token ⊕ Expr) × Parser
  | expect kind => ((parser.expect kind).1.map .inl, (parser.expect kind).2)
  | operand => (parser.operand.1.map .inr, parser.operand.2)
  | integer => (parser.integer.1.map .inr, parser.integer.2)
  | signed => (parser.signed.1.map .inr, parser.signed.2)
  | expression => (parser.expression.outcome.map .inr, parser.expression.parser)

def foundTokens : Token ⊕ Expr → List Token
  | .inl token => [token]
  | .inr expr => expr.tokens

/-- What can be done to a parser: to advance, to change its grammar, and to call. -/
inductive Operation where
  | advance
  | setPower (kind : TokenKind) (power : BindingPower)
  | setRule (kind : TokenKind) (rule : OperandRule)
  | addArithmetic
  | read (call : Call)

def Operation.apply (parser : Parser) : Operation → Parser
  | advance => parser.advance.2
  | setPower kind power => { parser with grammar := parser.grammar.setPower kind power }
  | setRule kind rule => { parser with grammar := parser.grammar.setRule kind rule }
  | addArithmetic => { parser with grammar := parser.grammar.addArithmetic }
  | read call => (call.run parser).2

/-- A parser on a stream, after any operations on it. At first its grammar is empty. -/
inductive Reachable (tokens : List Token) : Parser → Prop
  | start : Reachable tokens (.ofTokens tokens .empty)
  | step {parser : Parser} (h : Reachable tokens parser) (operation : Operation) :
      Reachable tokens (operation.apply parser)

theorem conserves_call (parser : Parser) (call : Call) :
    Conserves parser ((call.run parser).1.map foundTokens) (call.run parser).2 := by
  have hmap : ∀ {α : Type} (outcome : Except Fault α) (into : α → Token ⊕ Expr),
      (outcome.map into).map foundTokens = outcome.map fun value => foundTokens (into value) := by
    intro α outcome into
    cases outcome <;> rfl
  cases call with
  | expect kind =>
    rw [Call.run, hmap]
    exact conserves_expect parser kind
  | operand =>
    rw [Call.run, hmap]
    exact conserves_operand parser
  | integer =>
    rw [Call.run, hmap]
    exact conserves_integer parser
  | signed =>
    rw [Call.run, hmap]
    exact conserves_signed parser
  | expression =>
    rw [Call.run, hmap]
    exact conserves_expression parser

theorem exists_standsAt_apply {tokens : List Token} {parser : Parser} {place : Nat}
    (h : parser.StandsAt tokens place) (operation : Operation) :
    ∃ next, (operation.apply parser).StandsAt tokens next := by
  cases operation with
  | advance => exact ⟨_, (Passes.advance parser).standsAt h⟩
  | setPower kind power => exact ⟨place, h.setGrammar _⟩
  | setRule kind rule => exact ⟨place, h.setGrammar _⟩
  | addArithmetic => exact ⟨place, h.setGrammar _⟩
  | read call =>
    obtain ⟨passed, hpassed, -, -⟩ := (conserves_call parser call).exists_passed
    exact ⟨_, hpassed.standsAt h⟩

theorem Reachable.exists_standsAt {tokens : List Token} {parser : Parser} (h : Reachable tokens parser) :
    ∃ place, parser.StandsAt tokens place := by
  induction h with
  | start => exact ⟨0, standsAt_ofTokens tokens .empty⟩
  | step _ operation ih =>
    obtain ⟨place, hplace⟩ := ih
    exact exists_standsAt_apply hplace operation

/-- **Calls conserve tokens.** After any operations a parser stands at a place of its continued stream. A call passes
over a run of tokens from there on and keeps the grammar. If it fails, the fault is that of the token it has come to;
otherwise the tokens of what it has found are the run. Behind an expression comes the end of the input. -/
theorem call_conserves_tokens {tokens : List Token} {parser : Parser} (hreachable : Reachable tokens parser)
    (call : Call) :
    ∃ place passed, parser.StandsAt tokens place ∧
      (∀ index < passed.length, passed[index]? = some (Token.continued tokens (place + index))) ∧
      (call.run parser).2.StandsAt tokens (place + passed.length) ∧
      (call.run parser).2.grammar = parser.grammar ∧
      (∀ fault, (call.run parser).1 = .error fault → fault = (call.run parser).2.unexpected) ∧
      ∀ found, (call.run parser).1 = .ok found →
        foundTokens found = passed ∧ (call = .expression → (call.run parser).2.current.kind = .endOfInput) := by
  obtain ⟨place, hplace⟩ := hreachable.exists_standsAt
  obtain ⟨passed, hpassed, hfault, hfound⟩ := (conserves_call parser call).exists_passed
  refine ⟨place, passed, hplace, ?_, hpassed.standsAt hplace, hpassed.grammar_eq, ?_, ?_⟩
  · intro index hindex
    rw [hpassed.getElem?_eq hindex, hplace]
  · intro fault herror
    exact hfault fault (by rw [herror]; rfl)
  · intro found hok
    refine ⟨hfound _ (by rw [hok]; rfl), ?_⟩
    rintro rfl
    cases houtcome : parser.expression.outcome with
    | error fault =>
      rw [Call.run, houtcome] at hok
      exact absurd hok (by simp [Except.map])
    | ok expr => exact kind_current_expression houtcome

/-- Reading `*2` fails at the product sign, which can then be passed over, and the rest is read. -/
theorem call_conserves_tokens_past_fault :
    Reachable [⟨.asterisk, "*", .ofOffset 0 1⟩, ⟨.integer, "2", .ofOffset 1 1⟩]
        ⟨[⟨.integer, "2", .ofOffset 1 1⟩], .ofOffset 1, .arithmetic⟩ ∧
      (Call.expression.run ⟨[⟨.integer, "2", .ofOffset 1 1⟩], .ofOffset 1, .arithmetic⟩).1 =
        .ok (.inr (.literal ⟨.integer, "2", .ofOffset 1 1⟩)) ∧
      (Call.expression.run ⟨[⟨.integer, "2", .ofOffset 1 1⟩], .ofOffset 1, .arithmetic⟩).2.current.kind =
        .endOfInput := by
  have hrefused : (Parser.expression ⟨[⟨.asterisk, "*", .ofOffset 0 1⟩, ⟨.integer, "2", .ofOffset 1 1⟩], .start,
      .arithmetic⟩).parser =
      ⟨[⟨.asterisk, "*", .ofOffset 0 1⟩, ⟨.integer, "2", .ofOffset 1 1⟩], .start, .arithmetic⟩ := by cbv
  have hread : Reachable [⟨.asterisk, "*", .ofOffset 0 1⟩, ⟨.integer, "2", .ofOffset 1 1⟩]
      ⟨[⟨.asterisk, "*", .ofOffset 0 1⟩, ⟨.integer, "2", .ofOffset 1 1⟩], .start, .arithmetic⟩ := by
    rw [← hrefused]
    exact (Reachable.start.step .addArithmetic).step (.read .expression)
  have hfound : (Call.expression.run ⟨[⟨.integer, "2", .ofOffset 1 1⟩], .ofOffset 1, .arithmetic⟩).1 =
      .ok (.inr (.literal ⟨.integer, "2", .ofOffset 1 1⟩)) := by cbv
  obtain ⟨place, passed, -, -, -, -, -, hpassed⟩ := call_conserves_tokens (hread.step .advance) .expression
  exact ⟨hread.step .advance, hfound, (hpassed _ hfound).2 rfl⟩

end Parser

end Abacus
