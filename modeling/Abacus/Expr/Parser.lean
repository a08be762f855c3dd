import Abacus.Expr.Basic
import Abacus.Expr.Grammar
import Abacus.Fault

/-!
# Reading expressions

A parser stands before a stream of tokens and holds a grammar. Past the last token it goes on to report the
end of the input. An operand that waits for the right side of its operator is kept in a frame; frames are
closed into joined expressions as soon as an operator comes that does not bind stronger, or the input ends.
A reading tells, besides its outcome, which frames were opened and closed.
-/

namespace Abacus

/-- Tokens to be read under a grammar. The end of the input is reported at `reached` once no token is pending. -/
structure Parser where
  pending : List Token
  reached : Position
  grammar : Grammar

namespace Parser

def ofTokens (tokens : List Token) (grammar : Grammar) : Parser :=
  ⟨tokens, .start, grammar⟩

def current (parser : Parser) : Token :=
  parser.pending.headD (.endOfInput parser.reached)

def position (parser : Parser) : Position :=
  parser.current.position

def advance (parser : Parser) : Token × Parser :=
  match parser.pending with
  | [] => (parser.current, parser)
  | token :: pending => (token, { parser with pending, reached := token.span.stop })

/-- The fault of meeting the current token where it cannot stand. -/
def unexpected (parser : Parser) : Fault :=
  if parser.current.kind = .endOfInput then ⟨.unexpectedEndOfInput, parser.position⟩
  else ⟨.illegalToken parser.current.literal, parser.position⟩

def expect (parser : Parser) (kind : TokenKind) : Except Fault Token × Parser :=
  if parser.current.kind = kind then
    let (token, parser) := parser.advance
    (.ok token, parser)
  else (.error parser.unexpected, parser)

def signs (parser : Parser) : List Token :=
  parser.pending.takeWhile Token.isSign

def skipSigns (parser : Parser) : Parser :=
  { parser with
    pending := parser.pending.dropWhile Token.isSign
    reached := parser.signs.foldl (fun _ sign => sign.span.stop) parser.reached }

def integer (parser : Parser) : Except Fault Expr × Parser :=
  match parser.expect .integer with
  | (.ok token, parser) => (.ok (.literal token), parser)
  | (.error fault, parser) => (.error fault, parser)

/-- Reads an integer behind any number of signs. -/
def signed (parser : Parser) : Except Fault Expr × Parser :=
  match parser.skipSigns.expect .integer with
  | (.ok token, rest) => (.ok (.signed token parser.signs), rest)
  | (.error fault, rest) => (.error fault, rest)

/-- Reads an operand by the rule that the grammar has for the current token. -/
def operand (parser : Parser) : Except Fault Expr × Parser :=
  match parser.grammar.rule? parser.current.kind with
  | some .integer => parser.integer
  | some .signed => parser.signed
  | none => (.error parser.unexpected, parser)

theorem length_pending_advance_le (parser : Parser) :
    parser.advance.2.pending.length ≤ parser.pending.length := by
  unfold advance
  split <;> simp_all

theorem length_pending_expect_le (parser : Parser) (kind : TokenKind) :
    (parser.expect kind).2.pending.length ≤ parser.pending.length := by
  unfold expect
  split
  · exact length_pending_advance_le parser
  · exact Nat.le_refl _

theorem length_pending_integer_le (parser : Parser) :
    parser.integer.2.pending.length ≤ parser.pending.length := by
  have h := length_pending_expect_le parser .integer
  unfold integer
  split <;> simp_all

theorem length_pending_signed_le (parser : Parser) :
    parser.signed.2.pending.length ≤ parser.pending.length := by
  have hskip : parser.skipSigns.pending.length ≤ parser.pending.length :=
    (List.dropWhile_sublist _).length_le
  have hexpect := length_pending_expect_le parser.skipSigns .integer
  unfold signed
  split <;> simp_all <;> omega

theorem length_pending_operand_le (parser : Parser) :
    parser.operand.2.pending.length ≤ parser.pending.length := by
  unfold operand
  split
  · exact length_pending_integer_le parser
  · exact length_pending_signed_le parser
  · exact Nat.le_refl _

theorem length_pending_advance_lt (parser : Parser) (h : parser.current.kind ≠ .endOfInput) :
    parser.advance.2.pending.length < parser.pending.length := by
  unfold advance
  cases hpending : parser.pending with
  | nil => simp [current, hpending, Token.endOfInput] at h
  | cons token pending => simp

/-- An operand that waits for the right side of its operator. -/
structure Frame where
  left : Expr
  operator : Token
  power : BindingPower

/-- What happens to frames while an expression is read. -/
inductive Event where
  | opening (operator : Token) (depth : Nat)
  | closing (operator : Token) (remaining : Nat)
  deriving DecidableEq

def Event.message : Event → String
  | opening operator depth =>
    "opening `" ++ operator.display ++ "` frame at depth " ++ toString depth
  | closing operator remaining =>
    "reducing `" ++ operator.display ++ "` frame, " ++ toString remaining ++ " frames left"

/-- Open frames, the innermost first, around an expression, and the events so far, the latest first. -/
structure Progress where
  frames : List Frame
  expr : Expr
  events : List Event

/-- Closes, innermost first, the frames that bind at least as strongly as a given power. -/
def closeFrames (power : BindingPower) : List Frame → Expr → List Event → Progress
  | [], expr, events => ⟨[], expr, events⟩
  | frame :: frames, expr, events =>
    if frame.power.rank < power.rank then ⟨frame :: frames, expr, events⟩
    else
      closeFrames power frames (.binary frame.operator frame.left expr)
        (.closing frame.operator frames.length :: events)

/-- The frames and events once an operator has closed the frames that bind at least as strongly and opened its own. -/
def Progress.openFrame (progress : Progress) (operator : Token) (power : BindingPower) : List Frame × List Event :=
  let closed := closeFrames power progress.frames progress.expr progress.events
  (⟨closed.expr, operator, power⟩ :: closed.frames, .opening operator closed.frames.length :: closed.events)

/-- Goes on with the operand behind an operator. -/
def Progress.join (progress : Progress) (operator : Token) (power : BindingPower) (operand : Expr) : Progress :=
  let (frames, events) := progress.openFrame operator power
  ⟨frames, operand, events⟩

@[simp]
theorem Progress.expr_join (progress : Progress) (operator : Token) (power : BindingPower) (operand : Expr) :
    (progress.join operator power operand).expr = operand := rfl

/-- The outcome of reading an expression, the parser after it, and the events in order. -/
structure Reading where
  outcome : Except Fault Expr
  parser : Parser
  events : List Event

/-- Goes on reading behind an operand, with the progress so far. -/
def resume (parser : Parser) (progress : Progress) : Reading :=
  if _hend : parser.current.kind = .endOfInput then
    let closed := closeFrames .lowest progress.frames progress.expr progress.events
    ⟨.ok closed.expr, parser, closed.events.reverse⟩
  else
    let power := parser.grammar.power parser.current.kind
    if power = .lowest then ⟨.error parser.unexpected, parser, progress.events.reverse⟩
    else
      let operator := parser.current
      match _hoperand : parser.advance.2.operand with
      | (.ok operand, rest) => resume rest (progress.join operator power operand)
      | (.error fault, rest) => ⟨.error fault, rest, (progress.openFrame operator power).2.reverse⟩
termination_by parser.pending.length
decreasing_by
  have hadvance := length_pending_advance_lt parser _hend
  have hoperand := length_pending_operand_le parser.advance.2
  rw [_hoperand] at hoperand
  exact Nat.lt_of_le_of_lt hoperand hadvance

def expression (parser : Parser) : Reading :=
  match parser.operand with
  | (.ok expr, rest) => rest.resume ⟨[], expr, []⟩
  | (.error fault, rest) => ⟨.error fault, rest, []⟩

/-- Reads a whole stream of tokens as one expression of arithmetic. -/
def arithmetic (tokens : List Token) : Reading :=
  let reading := (ofTokens tokens .arithmetic).expression
  match reading.outcome with
  | .error _ => reading
  | .ok _ =>
    match reading.parser.expect .endOfInput with
    | (.ok _, parser) => { reading with parser }
    | (.error fault, parser) => { reading with outcome := .error fault, parser }

end Parser

/-- The expression of arithmetic that a stream of tokens spells. -/
def Expr.parse (tokens : List Token) : Except Fault Expr :=
  (Parser.arithmetic tokens).outcome

end Abacus
