import Abacus.Expr.Walk
import Abacus.Proofs.Expr.Reading
import Abacus.Token.Lexer
import Mathlib.Order.Basic

/-!
# The trace of a reading

Whatever the grammar, the open frames of a parser bind ever stronger toward the innermost, and none binds at the lowest
power, so there are at most two. A reading tells when it opens and closes frames. The numbers in these events are the
frames open at the time. An expression is joined when its frame is closed, so frames are closed in the order in which a
walk leaves the expression: what has been closed so far are the operators inside the open frames and the current
operand.
-/

namespace Abacus

def Visit.operator? : Visit → Option Token
  | binary operator => some operator
  | _ => none

/-- The operators of an expression in the order of a walk. -/
def Expr.operatorsUpward (expr : Expr) : List Token :=
  expr.postOrder.filterMap Visit.operator?

theorem BindingPower.rank_pos {power : BindingPower} (h : power ≠ .lowest) : 0 < power.rank := by
  cases power with
  | lowest => exact absurd rfl h
  | additive | multiplicative => exact Nat.succ_pos _

theorem BindingPower.rank_le_two (power : BindingPower) : power.rank ≤ 2 := by
  cases power <;> decide

namespace Parser

namespace Event

def isOpening : Event → Bool
  | opening _ _ => true
  | closing _ _ => false

def closed? : Event → Option Token
  | opening _ _ => none
  | closing operator _ => some operator

/-- The number of other frames that an event tells of. -/
def depth : Event → Nat
  | opening _ depth => depth
  | closing _ remaining => remaining

end Event

/-! ### Frames -/

/-- Frames bind ever stronger toward the innermost, and each stronger than the lowest power. -/
structure Rising (frames : List Frame) : Prop where
  stronger : frames.Pairwise fun inner outer => outer.power.rank < inner.power.rank
  ne_lowest : ∀ frame ∈ frames, frame.power ≠ .lowest

namespace Rising

variable {frames : List Frame}

theorem nil : Rising [] :=
  ⟨.nil, by simp⟩

/-- There are only two powers above the lowest one. -/
theorem length_le_two (h : Rising frames) : frames.length ≤ 2 := by
  match frames, h with
  | [], _ => exact Nat.zero_le 2
  | [_], _ => exact Nat.le_succ 1
  | [_, _], _ => exact Nat.le_refl 2
  | first :: second :: third :: _, h =>
    have hsecond : second.power.rank < first.power.rank := (List.pairwise_cons.mp h.stronger).1 second (by simp)
    have hthird : third.power.rank < second.power.rank :=
      (List.pairwise_cons.mp (List.pairwise_cons.mp h.stronger).2).1 third (by simp)
    have hlow := BindingPower.rank_pos (h.ne_lowest third (by simp))
    have hhigh := BindingPower.rank_le_two first.power
    omega

theorem closeFrames (h : Rising frames) (power : BindingPower) (expr : Expr) (events : List Event) :
    Rising (Parser.closeFrames power frames expr events).frames := by
  have hsuffix := closeFrames_suffix frames expr events power
  exact ⟨h.stronger.sublist hsuffix.sublist, fun frame hmem => h.ne_lowest frame (hsuffix.subset hmem)⟩

theorem join {progress : Progress} (h : Rising progress.frames) (operator : Token) {power : BindingPower}
    (hpower : power ≠ .lowest) (operand : Expr) : Rising (progress.join operator power operand).frames := by
  have hclosed := h.closeFrames power progress.expr progress.events
  constructor
  · exact List.pairwise_cons.mpr ⟨power_lt_of_mem_closeFrames h.stronger, hclosed.stronger⟩
  · exact List.forall_mem_cons.mpr ⟨hpower, hclosed.ne_lowest⟩

theorem frames_closeFrames_lowest (h : Rising frames) (expr : Expr) (events : List Event) :
    (Parser.closeFrames .lowest frames expr events).frames = [] := by
  rw [List.eq_nil_iff_forall_not_mem]
  intro frame hmem
  exact Nat.not_lt_zero _ (power_lt_of_mem_closeFrames h.stronger frame hmem)

end Rising

/-! ### The states of the loop -/

/-- The states in which a parser comes to the head of its loop over operators while it reads an expression. -/
inductive Iteration (start : Parser) : Parser → Progress → Prop
  | first {expr : Expr} {rest : Parser} (hoperand : start.operand = (.ok expr, rest)) :
      Iteration start rest ⟨[], expr, []⟩
  | next {parser rest : Parser} {progress : Progress} {operand : Expr} (h : Iteration start parser progress)
      (hend : parser.current.kind ≠ .endOfInput)
      (hpower : parser.grammar.power parser.current.kind ≠ .lowest)
      (hoperand : parser.advance.2.operand = (.ok operand, rest)) :
      Iteration start rest (progress.join parser.current (parser.grammar.power parser.current.kind) operand)

section Iteration

variable {start parser : Parser} {progress : Progress}

theorem Iteration.expression_eq (h : Iteration start parser progress) :
    start.expression = parser.resume progress := by
  induction h with
  | first hoperand => rw [expression, hoperand]
  | next _ hend hpower hoperand ih => rw [ih, resume_of_operand hend hpower hoperand]

theorem Iteration.rising (h : Iteration start parser progress) : Rising progress.frames := by
  induction h with
  | first hoperand => exact .nil
  | next _ hend hpower hoperand ih => exact ih.join _ hpower _

/-- A reading that succeeds comes to the end of the input at the head of its loop, and closes all frames there. -/
theorem exists_iteration_of_resume {expr : Expr} (h : Iteration start parser progress)
    (hok : (parser.resume progress).outcome = .ok expr) :
    ∃ last final, Iteration start last final ∧
      expr = (closeFrames .lowest final.frames final.expr final.events).expr ∧
      start.expression.events = (closeFrames .lowest final.frames final.expr final.events).events.reverse := by
  have hexpression := h.expression_eq
  fun_induction resume parser progress with
  | case1 parser progress hend closed =>
    refine ⟨parser, progress, h, (Except.ok.inj hok).symm, ?_⟩
    rw [hexpression]
  | case2 => simp at hok
  | case3 parser progress hend power hpower operator operand rest hoperand ih =>
    have hnext := h.next hend hpower hoperand
    exact ih hnext hok hnext.expression_eq
  | case4 => simp at hok

end Iteration

/-! ### Counting frames -/

/-- Events, the latest first, that tell how many frames are open: so many now, and at each event so many beside it. -/
inductive Counted : List Event → Nat → Prop
  | nil : Counted [] 0
  | opening {events : List Event} {depth : Nat} (h : Counted events depth) (operator : Token) :
      Counted (.opening operator depth :: events) (depth + 1)
  | closing {events : List Event} {depth : Nat} (h : Counted events (depth + 1)) (operator : Token) :
      Counted (.closing operator depth :: events) depth

theorem Counted.closeFrames {frames : List Frame} {events : List Event} (h : Counted events frames.length)
    (power : BindingPower) (expr : Expr) :
    Counted (Parser.closeFrames power frames expr events).events
      (Parser.closeFrames power frames expr events).frames.length := by
  refine closeFrames_invariant (fun progress => Counted progress.events progress.frames.length) ?_ h
  intro frame frames expr events _ hcounted
  exact .closing hcounted frame.operator

theorem Iteration.counted {start parser : Parser} {progress : Progress} (h : Iteration start parser progress) :
    Counted progress.events progress.frames.length := by
  induction h with
  | first hoperand => exact .nil
  | next _ hend hpower hoperand ih => exact .opening (ih.closeFrames _ _) _

theorem Counted.length_filter {events : List Event} {depth : Nat} (h : Counted events depth) :
    (events.filter Event.isOpening).length = (events.filterMap Event.closed?).length + depth := by
  induction h with
  | nil => rfl
  | opening _ operator ih =>
    rw [List.filter_cons_of_pos rfl, List.filterMap_cons_none rfl, List.length_cons, ih, Nat.add_assoc]
  | @closing events depth _ operator ih =>
    have hclosed : (Event.closing operator depth :: events).filterMap Event.closed? =
        operator :: events.filterMap Event.closed? := rfl
    rw [List.filter_cons_of_neg (by simp [Event.isOpening]), ih, hclosed, List.length_cons]
    omega

theorem Counted.of_append {later earlier : List Event} {depth : Nat} (h : Counted (later ++ earlier) depth) :
    ∃ before, Counted earlier before := by
  induction later generalizing depth with
  | nil => exact ⟨depth, h⟩
  | cons event later ih =>
    cases h with
    | opening hrest => exact ih hrest
    | closing hrest => exact ih hrest

/-- What is left open when a frame is closed are the frames opened before that have not been closed by then. -/
theorem Counted.length_filter_of_closing {events before after : List Event} {depth remaining : Nat} {operator : Token}
    (h : Counted events depth) (hsplit : events.reverse = before ++ .closing operator remaining :: after) :
    (before.filter Event.isOpening).length = (before.filterMap Event.closed?).length + 1 + remaining := by
  have hevents : events = after.reverse ++ .closing operator remaining :: before.reverse := by
    rw [← List.reverse_reverse events, hsplit]
    simp
  rw [hevents] at h
  obtain ⟨_, hclosing⟩ := h.of_append
  cases hclosing with
  | closing hbefore =>
    have hcount := hbefore.length_filter
    rw [List.filter_reverse, List.filterMap_reverse, List.length_reverse, List.length_reverse] at hcount
    omega

/-! ### Closing in the order of a walk -/

/-- The operators of frames that have been closed already: those inside the open frames and the current expression. -/
def Joined (frames : List Frame) (expr : Expr) (events : List Event) : Prop :=
  events.reverse.filterMap Event.closed? =
    frames.reverse.flatMap (fun frame => frame.left.operatorsUpward) ++ expr.operatorsUpward

theorem operatorsUpward_binary (operator : Token) (left right : Expr) :
    (Expr.binary operator left right).operatorsUpward =
      left.operatorsUpward ++ right.operatorsUpward ++ [operator] := by
  simp [Expr.operatorsUpward, Expr.postOrder, Visit.operator?]

theorem Joined.closeFrames {frames : List Frame} {expr : Expr} {events : List Event} (h : Joined frames expr events)
    (power : BindingPower) :
    Joined (Parser.closeFrames power frames expr events).frames (Parser.closeFrames power frames expr events).expr
      (Parser.closeFrames power frames expr events).events := by
  refine closeFrames_invariant (fun progress => Joined progress.frames progress.expr progress.events) ?_ h
  intro frame frames expr events _ hjoined
  rw [Joined] at hjoined ⊢
  rw [List.reverse_cons, List.filterMap_append, hjoined, operatorsUpward_binary]
  simp [Event.closed?]

theorem operatorsUpward_signed (token : Token) (signs : List Token) :
    (Expr.signed token signs).operatorsUpward = [] := by
  unfold Expr.signed
  split <;> rfl

theorem operatorsUpward_operand {parser rest : Parser} {expr : Expr} (h : parser.operand = (.ok expr, rest)) :
    expr.operatorsUpward = [] := by
  unfold operand at h
  split at h
  · unfold integer at h
    split at h
    · obtain ⟨hexpr, -⟩ := Prod.mk.inj h
      rw [← Except.ok.inj hexpr]
      rfl
    · simp at h
  · unfold signed at h
    split at h
    · obtain ⟨hexpr, -⟩ := Prod.mk.inj h
      rw [← Except.ok.inj hexpr]
      exact operatorsUpward_signed _ _
    · simp at h
  · simp at h

theorem Joined.join {progress : Progress} (h : Joined progress.frames progress.expr progress.events)
    (operator : Token) (power : BindingPower) {operand : Expr} (hoperand : operand.operatorsUpward = []) :
    Joined (progress.join operator power operand).frames operand (progress.join operator power operand).events := by
  have hclosed := h.closeFrames power
  rw [Joined] at hclosed ⊢
  simp [Progress.join, Progress.openFrame, hclosed, hoperand, Event.closed?]

theorem Iteration.joined {start parser : Parser} {progress : Progress} (h : Iteration start parser progress) :
    Joined progress.frames progress.expr progress.events := by
  induction h with
  | first hoperand => exact (operatorsUpward_operand hoperand).symm
  | next _ hend hpower hoperand ih => exact ih.join _ _ (operatorsUpward_operand hoperand)

/-! ### Opening behind sums -/

theorem mem_closeFrames_of_lt {frames : List Frame} {power : BindingPower} {frame : Frame} (hmem : frame ∈ frames)
    (hlt : frame.power.rank < power.rank) (expr : Expr) (events : List Event) :
    frame ∈ (closeFrames power frames expr events).frames := by
  refine closeFrames_invariant (fun progress => frame ∈ progress.frames) ?_ hmem
  intro first frames expr events hclosed hmem
  rcases List.mem_cons.mp hmem with rfl | hrest
  · exact absurd hlt hclosed
  · exact hrest

/-- How many frames are open below the one of an operator, behind earlier operators: the frame of a sum stays open
while a product is read. -/
def depthBehind (earlier : List Token) (operator : Token) : Nat :=
  if (operator.kind = .asterisk ∨ operator.kind = .slash) ∧
    ∃ other ∈ earlier, other.kind = .plus ∨ other.kind = .minus then 1 else 0

theorem depthBehind_eq (earlier : List Token) (operator : Token) :
    depthBehind earlier operator =
      if operator.kind.rank = 2 ∧ ∃ other ∈ earlier, other.kind.rank = 1 then 1 else 0 := by
  simp only [depthBehind, TokenKind.rank_eq_one_iff, TokenKind.rank_eq_two_iff]

/-- There is the frame of a sum among open frames exactly if there was one of its operators before. -/
def OpenBehind (earlier : List Token) (frames : List Frame) : Prop :=
  (∃ frame ∈ frames, frame.power.rank = 1) ↔ ∃ other ∈ earlier, other.kind.rank = 1

section Opening

variable {frames : List Frame} {earlier : List Token} {operator : Token} {power : BindingPower}
  (hrising : Rising frames) (hopen : OpenBehind earlier frames) (hpower : power.rank = operator.kind.rank)
include hrising hopen hpower

theorem length_closeFrames (expr : Expr) (events : List Event) :
    (closeFrames power frames expr events).frames.length = depthBehind earlier operator := by
  have hclosed := hrising.closeFrames power expr events
  have hbetween : ∀ frame ∈ (closeFrames power frames expr events).frames,
      0 < frame.power.rank ∧ frame.power.rank < power.rank := by
    intro frame hmem
    exact ⟨BindingPower.rank_pos (hclosed.ne_lowest frame hmem),
      power_lt_of_mem_closeFrames hrising.stronger frame hmem⟩
  have hle := BindingPower.rank_le_two power
  rw [depthBehind_eq]
  split
  · rename_i hsum
    obtain ⟨frame, hmem, hframe⟩ := hopen.mpr hsum.2
    have hkept := mem_closeFrames_of_lt hmem (show frame.power.rank < power.rank by omega) expr events
    match hframes : (closeFrames power frames expr events).frames, hclosed with
    | [], _ => simp [hframes] at hkept
    | [_], _ => rfl
    | first :: second :: _, hrest =>
      have hfirst := hbetween first (by simp [hframes])
      have hsecond := hbetween second (by simp [hframes])
      have hstronger := (List.pairwise_cons.mp hrest.stronger).1 second (by simp)
      omega
  · rename_i hsum
    rw [List.length_eq_zero_iff, List.eq_nil_iff_forall_not_mem]
    intro frame hmem
    have hbounds := hbetween frame hmem
    apply hsum
    refine ⟨by omega, hopen.mp ⟨frame, (closeFrames_suffix frames expr events power).subset hmem, by omega⟩⟩

end Opening

theorem OpenBehind.join {progress : Progress} {earlier : List Token} {operator : Token} {power : BindingPower}
    (hopen : OpenBehind earlier progress.frames) (hpower : power.rank = operator.kind.rank) (hne : power ≠ .lowest)
    (operand : Expr) : OpenBehind (earlier ++ [operator]) (progress.join operator power operand).frames := by
  constructor
  · rintro ⟨frame, hmem, hframe⟩
    rcases List.mem_cons.mp hmem with rfl | hkept
    · exact ⟨operator, by simp, hpower ▸ hframe⟩
    · obtain ⟨other, hother, hsum⟩ := hopen.mp ⟨frame, (closeFrames_suffix _ _ _ _).subset hkept, hframe⟩
      exact ⟨other, List.mem_append_left _ hother, hsum⟩
  · rintro ⟨other, hmem, hother⟩
    by_cases hsum : power.rank = 1
    · exact ⟨_, List.mem_cons_self, hsum⟩
    · -- the new operator is a product sign, for which the frame of a sum is not closed
      have hpos := BindingPower.rank_pos hne
      rcases List.mem_append.mp hmem with hearlier | hlast
      · obtain ⟨frame, hframes, hframe⟩ := hopen.mpr ⟨other, hearlier, hother⟩
        have hkept := mem_closeFrames_of_lt hframes (show frame.power.rank < power.rank by omega) progress.expr
          progress.events
        exact ⟨frame, List.mem_cons_of_mem _ hkept, hframe⟩
      · rw [List.mem_singleton.mp hlast, ← hpower] at hother
        exact absurd hother hsum

theorem filter_isOpening_closeFrames (power : BindingPower) (frames : List Frame) (expr : Expr) (events : List Event) :
    (closeFrames power frames expr events).events.filter Event.isOpening = events.filter Event.isOpening := by
  refine closeFrames_invariant (fun progress => progress.events.filter Event.isOpening = events.filter Event.isOpening)
    ?_ rfl
  intro frame frames expr events _ hopened
  rw [List.filter_cons_of_neg (by simp [Event.isOpening])]
  exact hopened

/-- The frames that the operators of a row open. -/
def openings (operators : List Token) : List Event :=
  operators.mapIdx fun index operator => .opening operator (depthBehind (operators.take index) operator)

theorem openings_concat (earlier : List Token) (operator : Token) :
    openings (earlier ++ [operator]) = openings earlier ++ [.opening operator (depthBehind earlier operator)] := by
  have hearlier : earlier.mapIdx (fun index other =>
      Event.opening other (depthBehind ((earlier ++ [operator]).take index) other)) = openings earlier := by
    rw [openings, List.mapIdx_eq_mapIdx_iff]
    intro index hindex
    rw [List.take_append_of_le_length (Nat.le_of_lt hindex)]
  rw [openings, List.mapIdx_concat, hearlier, List.take_left]

theorem filter_isOpening_join {progress : Progress} {earlier : List Token} (hrising : Rising progress.frames)
    (hopen : OpenBehind earlier progress.frames)
    (hevents : progress.events.reverse.filter Event.isOpening = openings earlier) (operator : Token)
    (operand : Expr) :
    (progress.join operator (Grammar.arithmetic.power operator.kind) operand).events.reverse.filter Event.isOpening =
      openings (earlier ++ [operator]) := by
  have hdepth : (closeFrames (Grammar.arithmetic.power operator.kind) progress.frames progress.expr
      progress.events).frames.length = depthBehind earlier operator :=
    length_closeFrames hrising hopen rfl _ _
  rw [openings_concat, ← hevents, ← hdepth, List.filter_reverse, List.filter_reverse]
  simp only [Progress.join, Progress.openFrame]
  rw [List.filter_cons_of_pos rfl, List.reverse_cons, filter_isOpening_closeFrames]

theorem filter_isOpening_resume {joints : List Joint} {rest : List Token} (hrest : AtEnd rest) {parser : Parser}
    (hgrammar : parser.grammar = .arithmetic) (hpending : parser.pending = joints.flatMap Joint.tokens ++ rest)
    {progress : Progress} (hrising : Rising progress.frames) {earlier : List Token}
    (hopen : OpenBehind earlier progress.frames)
    (hevents : progress.events.reverse.filter Event.isOpening = openings earlier) :
    (parser.resume progress).events.filter Event.isOpening = openings (earlier ++ joints.map Joint.operator) := by
  induction joints generalizing parser progress earlier with
  | nil =>
    have hend : parser.current.kind = .endOfInput := kind_current_of_atEnd (by rwa [hpending])
    rw [resume, dif_pos hend, List.filter_reverse, filter_isOpening_closeFrames, ← List.filter_reverse, hevents,
      List.map_nil, List.append_nil]
  | cons joint joints ih =>
    rw [List.flatMap_cons, List.append_assoc] at hpending
    have hpower := power_ne_lowest joint.rank_pos
    have hjoined := filter_isOpening_join hrising hopen hevents joint.operator joint.operand.expr
    rw [resume_joint hgrammar hpending, ih rfl rfl (hrising.join _ hpower _) (hopen.join rfl hpower _) hjoined,
      List.map_cons, List.append_assoc, List.singleton_append]

/-! ### Few frames -/

/-- Events that tell of at most one other frame. -/
def Shallow (events : List Event) : Prop :=
  ∀ event ∈ events, event.depth ≤ 1

theorem Shallow.closeFrames {frames : List Frame} {events : List Event} (hfew : frames.length ≤ 2)
    (h : Shallow events) (power : BindingPower) (expr : Expr) :
    Shallow (Parser.closeFrames power frames expr events).events := by
  refine (closeFrames_invariant (fun progress => progress.frames.length ≤ 2 ∧ Shallow progress.events) ?_
    ⟨hfew, h⟩).2
  rintro frame frames expr events _ ⟨hfew, hshallow⟩
  have hrest : frames.length ≤ 1 := Nat.le_of_succ_le_succ hfew
  exact ⟨Nat.le_succ_of_le hrest, List.forall_mem_cons.mpr ⟨hrest, hshallow⟩⟩

theorem Shallow.join {progress : Progress} (hrising : Rising progress.frames) (h : Shallow progress.events)
    (operator : Token) {power : BindingPower} (hpower : power ≠ .lowest) (operand : Expr) :
    Shallow (progress.join operator power operand).events := by
  have hfew := (hrising.join operator hpower operand).length_le_two
  refine List.forall_mem_cons.mpr ⟨?_, h.closeFrames hrising.length_le_two power progress.expr⟩
  exact Nat.le_of_succ_le_succ hfew

theorem shallow_resume {parser : Parser} {progress : Progress} (hrising : Rising progress.frames)
    (h : Shallow progress.events) : Shallow (parser.resume progress).events := by
  have hreverse {events : List Event} (hevents : Shallow events) : Shallow events.reverse :=
    fun event hmem => hevents event (List.mem_reverse.mp hmem)
  fun_induction resume parser progress with
  | case1 parser progress hend closed => exact hreverse (h.closeFrames hrising.length_le_two _ _)
  | case2 parser progress => exact hreverse h
  | case3 parser progress hend power hpower operator operand rest hoperand ih =>
    exact ih (hrising.join operator hpower operand) (Shallow.join hrising h operator hpower operand)
  | case4 parser progress hend power hpower operator fault rest hoperand =>
    exact hreverse (Shallow.join hrising h operator hpower progress.expr)

theorem shallow_expression (parser : Parser) : Shallow parser.expression.events := by
  unfold expression
  split
  · exact shallow_resume .nil (by simp [Shallow])
  · simp [Shallow]

/-! ### Readings that succeed -/

theorem events_arithmetic (tokens : List Token) :
    (arithmetic tokens).events = (ofTokens tokens .arithmetic).expression.events := by
  simp only [arithmetic]
  split
  · rfl
  · split <;> rfl

/-- The events of reading a row as an expression. Each operator of the row opens a frame, in order. Each operator of
the expression closes one, in the order of a walk, and what is left open are the frames opened until then but for
those closed until then, this one among them. -/
structure Records (row : Row) (expr : Expr) (events : List Event) : Prop where
  opened : events.filter Event.isOpening = openings (row.joints.map Joint.operator)
  closed : events.filterMap Event.closed? = expr.operatorsUpward
  remaining : ∀ before operator remaining after, events = before ++ .closing operator remaining :: after →
    (before.filter Event.isOpening).length = (before.filterMap Event.closed?).length + 1 + remaining

theorem records_of_tokens (row : Row) {rest : List Token} (hrest : AtEnd rest) :
    Records row row.expr (arithmetic (row.tokens ++ rest)).events := by
  let start := ofTokens (row.tokens ++ rest) .arithmetic
  let next : Parser := ⟨row.joints.flatMap Joint.tokens ++ rest, row.first.integer.span.stop, .arithmetic⟩
  have hfirst : Iteration start next ⟨[], row.first.expr, []⟩ :=
    .first (operand_tokens rfl (List.append_assoc _ _ _))
  have hok : (next.resume ⟨[], row.first.expr, []⟩).outcome = .ok row.expr := by
    rw [← hfirst.expression_eq, ← outcome_arithmetic]
    exact Expr.parse_tokens row hrest
  obtain ⟨last, final, hfinal, hexpr, hevents⟩ := exists_iteration_of_resume hfirst hok
  have hframes := hfinal.rising.frames_closeFrames_lowest final.expr final.events
  rw [events_arithmetic]
  constructor
  · have hopen : OpenBehind [] [] := by simp [OpenBehind]
    rw [hfirst.expression_eq, filter_isOpening_resume hrest rfl rfl .nil hopen rfl, List.nil_append]
  · have hjoined := hfinal.joined.closeFrames .lowest
    rw [Joined, hframes, ← hevents, ← hexpr] at hjoined
    exact hjoined
  · intro before operator remaining after hsplit
    exact (hfinal.counted.closeFrames .lowest final.expr).length_filter_of_closing (hevents ▸ hsplit)

/-- **Frames and their trace.** Whatever the grammar, the frames open at the head of the loop bind ever stronger, none
of them at the lowest power, also when the operator there has opened its own. No event of a reading, failed ones
included, tells of more than one other frame, so that at most two are ever open. When tokens are read as an expression
of arithmetic, they are a row up to an end of the input, and the events are those of reading this row as the
expression. -/
theorem rising_and_recorded :
    (∀ {start parser : Parser} {progress : Progress}, Iteration start parser progress →
      start.expression = parser.resume progress ∧ Rising progress.frames ∧ progress.frames.length ≤ 2 ∧
        (parser.grammar.power parser.current.kind ≠ .lowest → ∀ operand,
          Rising (progress.join parser.current (parser.grammar.power parser.current.kind) operand).frames)) ∧
    (∀ start : Parser, ∀ event ∈ start.expression.events, event.depth ≤ 1) ∧
    ∀ {tokens : List Token} {expr : Expr}, Expr.parse tokens = .ok expr →
      ∃ (row : Row) (rest : List Token), tokens = row.tokens ++ rest ∧ AtEnd rest ∧
        Records row expr (arithmetic tokens).events := by
  refine ⟨?_, shallow_expression, ?_⟩
  · intro start parser progress h
    exact ⟨h.expression_eq, h.rising, h.rising.length_le_two, h.rising.join _⟩
  · intro tokens expr hparse
    obtain ⟨row, rest, rfl, hrest, rfl⟩ := Expr.exists_row_of_parse hparse
    exact ⟨row, rest, rfl, hrest, records_of_tokens row hrest⟩

/-- While `1+2*3` is read, the frame of the product is opened inside that of the sum and closed before it. -/
theorem rising_and_recorded_product_in_sum :
    (∃ parser progress, Iteration (ofTokens (tokenize "1+2*3") .arithmetic) parser progress ∧
      progress.frames.length = 2 ∧ Rising progress.frames) ∧
    ∃ (row : Row) (rest : List Token), tokenize "1+2*3" = row.tokens ++ rest ∧ AtEnd rest ∧
      Records row
        (.binary ⟨.plus, "+", .ofOffset 1 1⟩ (.literal ⟨.integer, "1", .ofOffset 0 1⟩)
          (.binary ⟨.asterisk, "*", .ofOffset 3 1⟩ (.literal ⟨.integer, "2", .ofOffset 2 1⟩)
            (.literal ⟨.integer, "3", .ofOffset 4 1⟩)))
        [.opening ⟨.plus, "+", .ofOffset 1 1⟩ 0, .opening ⟨.asterisk, "*", .ofOffset 3 1⟩ 1,
          .closing ⟨.asterisk, "*", .ofOffset 3 1⟩ 1, .closing ⟨.plus, "+", .ofOffset 1 1⟩ 0] := by
  constructor
  · let tokens : List Token := [⟨.integer, "1", .ofOffset 0 1⟩, ⟨.plus, "+", .ofOffset 1 1⟩,
      ⟨.integer, "2", .ofOffset 2 1⟩, ⟨.asterisk, "*", .ofOffset 3 1⟩, ⟨.integer, "3", .ofOffset 4 1⟩,
      .endOfInput (.ofOffset 5)]
    have htokens : tokenize "1+2*3" = tokens := by decide +kernel
    have hfirst : Iteration (ofTokens tokens .arithmetic) _ _ := .first rfl
    have hsum := hfirst.next (by decide) (by decide) rfl
    have hproduct := hsum.next (by decide) (by decide) rfl
    rw [htokens]
    exact ⟨_, _, hproduct, rfl, (rising_and_recorded.1 hproduct).2.1⟩
  · have hparse : Expr.parse (tokenize "1+2*3") = .ok
        (.binary ⟨.plus, "+", .ofOffset 1 1⟩ (.literal ⟨.integer, "1", .ofOffset 0 1⟩)
          (.binary ⟨.asterisk, "*", .ofOffset 3 1⟩ (.literal ⟨.integer, "2", .ofOffset 2 1⟩)
            (.literal ⟨.integer, "3", .ofOffset 4 1⟩))) := by decide +kernel
    have hevents : (arithmetic (tokenize "1+2*3")).events =
        [.opening ⟨.plus, "+", .ofOffset 1 1⟩ 0, .opening ⟨.asterisk, "*", .ofOffset 3 1⟩ 1,
          .closing ⟨.asterisk, "*", .ofOffset 3 1⟩ 1, .closing ⟨.plus, "+", .ofOffset 1 1⟩ 0] := by decide +kernel
    obtain ⟨row, rest, htokens, hrest, hrecords⟩ := rising_and_recorded.2.2 hparse
    exact ⟨row, rest, htokens, hrest, hevents ▸ hrecords⟩

end Parser

end Abacus
