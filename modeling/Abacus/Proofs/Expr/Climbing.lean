import Abacus.Proofs.Expr.Reading

/-!
# Climbing

The frames of the parser stand for calls that wait for the right side of their operator. Written with such calls,
reading an expression is a climb: an operand is joined with whatever follows it as long as the operators bind
stronger than the one it stands behind. Unwinding the open frames at any time, innermost first, gives what the
waiting calls would give, whatever the grammar says about any kind of token. The parser thus comes to the same
outcome as the climb, and stops before the same tokens.
-/

namespace Abacus.Parser

/-- Goes on with an expression that has been read, or stops with the fault. -/
def andThen (result : Except Fault Expr × Parser) (next : Expr → Parser → Except Fault Expr × Parser) :
    Except Fault Expr × Parser :=
  match result with
  | (.ok expr, rest) => next expr rest
  | (.error fault, rest) => (.error fault, rest)

theorem andThen_assoc (result : Except Fault Expr × Parser)
    (next later : Expr → Parser → Except Fault Expr × Parser) :
    andThen (andThen result next) later = andThen result fun expr rest => andThen (next expr rest) later := by
  rcases result with ⟨_ | _, _⟩ <;> rfl

/-! ### The recursive reading -/

/-- What comes of reading from a parser on. No more tokens are pending than before, so calls can be nested. -/
abbrev Within (parser : Parser) :=
  {result : Except Fault Expr × Parser // result.2.pending.length ≤ parser.pending.length}

/-- Whether the current token is an operator that binds stronger than a given power. -/
abbrev BindsAbove (parser : Parser) (power : BindingPower) : Prop :=
  parser.current.kind ≠ .endOfInput ∧ power.rank < (parser.grammar.power parser.current.kind).rank

mutual

def climbWithin (power : BindingPower) (parser : Parser) : Within parser :=
  match hoperand : parser.operand with
  | (.error fault, rest) =>
    ⟨(.error fault, rest), by simpa [hoperand] using length_pending_operand_le parser⟩
  | (.ok expr, rest) =>
    have hrest : rest.pending.length ≤ parser.pending.length := by
      simpa [hoperand] using length_pending_operand_le parser
    ⟨(climbOnWithin power expr rest).1, Nat.le_trans (climbOnWithin power expr rest).2 hrest⟩
termination_by (parser.pending.length, 1)
decreasing_by all_goals grind

def climbOnWithin (power : BindingPower) (left : Expr) (parser : Parser) : Within parser :=
  if habove : parser.BindsAbove power then
    have hadvance := length_pending_advance_lt parser habove.1
    match climbWithin (parser.grammar.power parser.current.kind) parser.advance.2 with
    | ⟨(.error fault, rest), hrest⟩ => ⟨(.error fault, rest), Nat.le_of_lt (Nat.lt_of_le_of_lt hrest hadvance)⟩
    | ⟨(.ok right, rest), hrest⟩ =>
      have hshorter : rest.pending.length < parser.pending.length := Nat.lt_of_le_of_lt hrest hadvance
      let joined := climbOnWithin power (.binary parser.current left right) rest
      ⟨joined.1, Nat.le_trans joined.2 (Nat.le_of_lt hshorter)⟩
  else ⟨(.ok left, parser), Nat.le_refl _⟩
termination_by (parser.pending.length, 0)
decreasing_by all_goals grind

end

/-- Reads an operand, and joins it with what follows as long as operators bind stronger than a given power. -/
def climb (power : BindingPower) (parser : Parser) : Except Fault Expr × Parser :=
  (climbWithin power parser).1

/-- Joins what has been read with what follows as long as operators bind stronger than a given power. -/
def climbOn (power : BindingPower) (left : Expr) (parser : Parser) : Except Fault Expr × Parser :=
  (climbOnWithin power left parser).1

theorem climb_eq (power : BindingPower) (parser : Parser) :
    climb power parser = andThen parser.operand (climbOn power) := by
  rw [climb, climbWithin]
  split
  · rename_i fault rest hoperand
    exact (congrArg (andThen · (climbOn power)) hoperand).symm
  · rename_i expr rest hoperand
    exact (congrArg (andThen · (climbOn power)) hoperand).symm

theorem climbOn_of_bindsAbove {power : BindingPower} {parser : Parser} (h : parser.BindsAbove power) (left : Expr) :
    climbOn power left parser =
      andThen (climb (parser.grammar.power parser.current.kind) parser.advance.2) fun right rest =>
        climbOn power (.binary parser.current left right) rest := by
  rw [climbOn, climbOnWithin, dif_pos h, climb]
  split
  · rename_i fault rest hrest hclimb
    rw [hclimb]
    rfl
  · rename_i right rest hrest hclimb
    rw [hclimb]
    rfl

theorem climbOn_of_not_bindsAbove {power : BindingPower} {parser : Parser} (h : ¬ parser.BindsAbove power)
    (left : Expr) : climbOn power left parser = (.ok left, parser) := by
  rw [climbOn, climbOnWithin, dif_neg h]

/-- An expression is complete before the end of the input only. -/
def complete (expr : Expr) (parser : Parser) : Except Fault Expr × Parser :=
  if parser.current.kind = .endOfInput then (.ok expr, parser) else (.error parser.unexpected, parser)

def climbAll (parser : Parser) : Except Fault Expr × Parser :=
  andThen (climb .lowest parser) complete

/-! ### Frames as waiting calls -/

/-- What the calls give that open frames stand for, the innermost of which has read an expression. -/
def unwind : List Frame → Expr → Parser → Except Fault Expr × Parser
  | [], expr, parser => climbOn .lowest expr parser
  | frame :: frames, expr, parser =>
    andThen (climbOn frame.power expr parser) fun right rest =>
      unwind frames (.binary frame.operator frame.left right) rest

section Unwind

variable {parser : Parser} {frames : List Frame} {expr : Expr} {events : List Event}

theorem unwind_of_not_bindsAbove (h : ∀ power, ¬ parser.BindsAbove power) :
    unwind frames expr parser = (.ok (closeAll frames expr), parser) := by
  induction frames generalizing expr with
  | nil => exact climbOn_of_not_bindsAbove (h _) expr
  | cons frame frames ih =>
    rw [unwind, climbOn_of_not_bindsAbove (h _)]
    exact ih

variable (parser frames expr events) in
/-- The calls whose operators bind at least as strongly as the current token return, as their frames are closed. -/
theorem unwind_closeFrames :
    unwind (closeFrames (parser.grammar.power parser.current.kind) frames expr events).frames
        (closeFrames (parser.grammar.power parser.current.kind) frames expr events).expr parser =
      unwind frames expr parser := by
  induction frames generalizing expr events with
  | nil => rfl
  | cons frame frames ih =>
    rw [closeFrames]
    split
    · rfl
    · rename_i hweaker
      have hreturns : ¬ parser.BindsAbove frame.power := fun habove => hweaker habove.2
      rw [ih, unwind, climbOn_of_not_bindsAbove hreturns]
      rfl

/-- The power that the innermost call climbs above. -/
def floor : List Frame → BindingPower
  | [] => .lowest
  | frame :: _ => frame.power

theorem floor_closeFrames_lt {power : BindingPower} (h : power ≠ .lowest) :
    (floor (closeFrames power frames expr events).frames).rank < power.rank := by
  induction frames generalizing expr events with
  | nil => cases power <;> first | exact absurd rfl h | exact Nat.succ_pos _
  | cons frame frames ih =>
    rw [closeFrames]
    split
    · rename_i hlt
      exact hlt
    · exact ih

/-- An operator that binds above the innermost call opens a frame around the operand behind it. -/
theorem unwind_open (h : parser.BindsAbove (floor frames)) :
    unwind frames expr parser =
      andThen parser.advance.2.operand
        (unwind (⟨expr, parser.current, parser.grammar.power parser.current.kind⟩ :: frames)) := by
  -- without frames the climb above the lowest power is the outermost call, which nothing waits for
  cases frames with
  | nil =>
    rw [floor] at h
    rw [unwind, climbOn_of_bindsAbove h, climb_eq, andThen_assoc]
    rfl
  | cons frame frames =>
    rw [floor] at h
    rw [unwind, climbOn_of_bindsAbove h, climb_eq, andThen_assoc, andThen_assoc]
    rfl

theorem unwind_join (hend : parser.current.kind ≠ .endOfInput)
    (hpower : parser.grammar.power parser.current.kind ≠ .lowest) (progress : Progress) :
    unwind progress.frames progress.expr parser =
      andThen parser.advance.2.operand fun operand rest =>
        unwind (progress.join parser.current (parser.grammar.power parser.current.kind) operand).frames
          operand rest := by
  have hopen : parser.BindsAbove
      (floor (closeFrames (parser.grammar.power parser.current.kind) progress.frames progress.expr
        progress.events).frames) :=
    ⟨hend, floor_closeFrames_lt hpower⟩
  rw [← unwind_closeFrames parser progress.frames progress.expr progress.events, unwind_open hopen]
  rfl

end Unwind

/-! ### The run of the parser -/

def Reading.result (reading : Reading) : Except Fault Expr × Parser :=
  (reading.outcome, reading.parser)

theorem result_resume (parser : Parser) (progress : Progress) :
    (parser.resume progress).result = andThen (unwind progress.frames progress.expr parser) complete := by
  fun_induction resume parser progress with
  | case1 parser progress hend closed =>
    have hstops : ∀ bound, ¬ parser.BindsAbove bound := fun bound habove => habove.1 hend
    rw [unwind_of_not_bindsAbove hstops, andThen, complete, if_pos hend]
    exact congrArg (fun expr => (Except.ok expr, parser)) closeFrames_lowest
  | case2 parser progress hend power hlowest =>
    have hstops : ∀ bound, ¬ parser.BindsAbove bound := by
      intro bound habove
      have hrank : bound.rank < power.rank := habove.2
      rw [hlowest] at hrank
      exact Nat.not_lt_zero _ hrank
    rw [unwind_of_not_bindsAbove hstops, andThen, complete, if_neg hend]
    rfl
  | case3 parser progress hend power hpower operator operand rest hoperand ih =>
    rw [ih, unwind_join hend hpower progress, hoperand]
    rfl
  | case4 parser progress hend power hpower operator fault rest hoperand =>
    rw [unwind_join hend hpower progress, hoperand]
    rfl

/-- **Frames stand for calls.** Whatever the grammar, the tokens and the state of a parser, reading an expression
with frames comes to the same outcome as climbing with calls, and leaves the same parser. -/
theorem result_expression_eq_climbAll (parser : Parser) : parser.expression.result = climbAll parser := by
  rw [climbAll, climb_eq, andThen_assoc, expression]
  rcases hoperand : parser.operand with ⟨_ | expr, rest⟩
  · rfl
  · exact result_resume rest _

end Abacus.Parser
