import Abacus.Proofs.Program.Agreement
import Mathlib.Order.Basic

/-!
# Programs of several expressions

An assembler takes one expression after another, and what it has added for an expression that fails stays. Such a
rest is the beginning of a walk, cut off anywhere, and the code of later expressions stands on top of it. Every
beginning of a walk finds its operands among the values that it has put on the stack itself, and leaves at least one
of them there unless it is empty. This holds above a stack of any height, so it passes from the code of single
expressions to the code of all of them, whichever of them failed.
-/

namespace Abacus

namespace Instruction

/-- Number of values that an instruction takes from the stack. It puts one value back. -/
def operandCount : Instruction → Nat
  | const _ => 0
  | negate => 1
  | binary _ _ => 2

/-- Code that finds its operands on a stack of height `low` and takes it to the height `high`. -/
inductive Raises : List Instruction → Nat → Nat → Prop
  | nil {height : Nat} : Raises [] height height
  | cons {instruction : Instruction} {code : List Instruction} {low high : Nat} (h : instruction.operandCount ≤ low)
    (hrest : Raises code (low - instruction.operandCount + 1) high) : Raises (instruction :: code) low high

theorem raises_const (value : Int64) (low : Nat) : Raises [const value] low (low + 1) :=
  .cons (Nat.zero_le low) .nil

theorem raises_negate (low : Nat) : Raises [negate] (low + 1) (low + 1) :=
  .cons (Nat.le_add_left 1 low) .nil

theorem raises_binary (operator : BinaryOperator) (position : Position) (low : Nat) :
    Raises [binary operator position] (low + 2) (low + 1) :=
  .cons (Nat.le_add_left 2 low) .nil

theorem Raises.append {first second : List Instruction} {low middle high : Nat} (hfirst : Raises first low middle)
    (hsecond : Raises second middle high) : Raises (first ++ second) low high := by
  induction hfirst with
  | nil => exact hsecond
  | cons h hrest ih => exact .cons h (ih hsecond)

theorem Raises.exists_middle {first second : List Instruction} {low high : Nat}
    (h : Raises (first ++ second) low high) : ∃ middle, Raises first low middle ∧ Raises second middle high := by
  induction first generalizing low with
  | nil => exact ⟨low, .nil, h⟩
  | cons instruction first ih =>
    cases h with
    | cons hoperands hrest =>
      obtain ⟨middle, hfirst, hsecond⟩ := ih hrest
      exact ⟨middle, .cons hoperands hfirst, hsecond⟩

/-- An instruction that finds its operands fails only as a division by zero. -/
theorem step_of_operandCount_le {instruction : Instruction} {stack : List Int64}
    (h : instruction.operandCount ≤ stack.length) :
    (∃ next, instruction.step stack = .ok next ∧ next.length = stack.length - instruction.operandCount + 1) ∨
      ∃ position, instruction = binary .divide position ∧
        instruction.step stack = .error ⟨.divisionByZero, position⟩ := by
  cases instruction with
  | const value => exact Or.inl ⟨_, rfl, rfl⟩
  | negate =>
    cases stack with
    | nil => simp [operandCount] at h
    | cons value stack => exact Or.inl ⟨_, rfl, rfl⟩
  | binary operator position =>
    match stack, h with
    | right :: left :: stack, _ =>
      cases hresult : operator.result? left right with
      | some value => exact Or.inl ⟨value :: stack, by rw [step, hresult], rfl⟩
      | none =>
        have hdivide : operator = .divide := by
          cases operator <;> simp_all [BinaryOperator.result?]
        exact Or.inr ⟨position, by rw [hdivide], by rw [step, hresult]⟩

/-- Code that finds its operands fails only as one of its divisions by zero. -/
theorem Raises.stepAll {code : List Instruction} {low high : Nat} (h : Raises code low high) {stack : List Int64}
    (hlow : stack.length = low) :
    (∃ next, Instruction.stepAll code stack = .ok next ∧ next.length = high) ∨
      ∃ position, binary .divide position ∈ code ∧
        Instruction.stepAll code stack = .error ⟨.divisionByZero, position⟩ := by
  induction h generalizing stack with
  | nil => exact Or.inl ⟨stack, rfl, hlow⟩
  | @cons instruction code low high hoperands hrest ih =>
    rw [Instruction.stepAll]
    rcases step_of_operandCount_le (hlow ▸ hoperands) with ⟨next, hstep, hlength⟩ | ⟨position, rfl, hstep⟩
    · rw [hstep]
      rcases ih (hlow ▸ hlength) with hdone | ⟨position, hmem, hfault⟩
      · exact Or.inl hdone
      · exact Or.inr ⟨position, List.mem_cons_of_mem _ hmem, hfault⟩
    · rw [hstep]
      exact Or.inr ⟨position, List.mem_cons_self, rfl⟩

/-- Code that finds its operands above a stack of any height, and leaves more values there unless it is empty. -/
def IsSelfContained (code : List Instruction) : Prop :=
  ∀ low, ∃ high, Raises code low high ∧ low ≤ high ∧ (code ≠ [] → low < high)

theorem isSelfContained_nil : IsSelfContained [] := by
  intro low
  exact ⟨low, .nil, Nat.le_refl low, fun hne => absurd rfl hne⟩

theorem isSelfContained_of_raises {code : List Instruction} (h : ∀ low, Raises code low (low + 1)) :
    IsSelfContained code := by
  intro low
  exact ⟨low + 1, h low, Nat.le_succ low, fun _ => Nat.lt_succ_self low⟩

theorem IsSelfContained.append {first second : List Instruction} (hfirst : IsSelfContained first)
    (hsecond : IsSelfContained second) : IsSelfContained (first ++ second) := by
  intro low
  obtain ⟨middle, hlow, hlowLe, hlowLt⟩ := hfirst low
  obtain ⟨high, hhigh, hhighLe, hhighLt⟩ := hsecond middle
  refine ⟨high, hlow.append hhigh, Nat.le_trans hlowLe hhighLe, ?_⟩
  intro hne
  by_cases hnil : first = []
  · have hsecondNe : second ≠ [] := by simpa [hnil] using hne
    exact Nat.lt_of_le_of_lt hlowLe (hhighLt hsecondNe)
  · exact Nat.lt_of_lt_of_le (hlowLt hnil) hhighLe

end Instruction

/-! ### The code of one expression, complete or cut off -/

namespace Assembler

open Instruction

theorem addVisits_append (first second : List Visit) (before : Assembler) :
    addVisits (first ++ second) before =
      match addVisits first before with
      | (.ok (), middle) => addVisits second middle
      | (.error fault, middle) => (.error fault, middle) := by
  induction first generalizing before with
  | nil => rfl
  | cons visit visits ih =>
    simp only [List.cons_append, addVisits]
    rcases before.addVisit visit with ⟨outcome, next⟩
    cases outcome with
    | ok _ => exact ih next
    | error fault => rfl

theorem addVisits_singleton (visit : Visit) (before : Assembler) :
    addVisits [visit] before = before.addVisit visit := by
  simp only [addVisits]
  rcases before.addVisit visit with ⟨_ | _, next⟩ <;> rfl

theorem exists_raises_of_addSigns (signs : List Token) (before : Assembler) :
    ∃ code, Adds before (addSigns signs before).2 code ∧ ∀ low, Raises code (low + 1) (low + 1) := by
  induction signs generalizing before with
  | nil => exact ⟨[], rfl, fun low => .nil⟩
  | cons sign signs ih =>
    rw [addSigns]
    cases UnaryOperator.ofToken sign with
    | error fault => exact ⟨[], rfl, fun low => .nil⟩
    | ok operator =>
      cases operator with
      | identity => exact ih before
      | negate =>
        obtain ⟨code, hadds, hraises⟩ := ih (before.emit .negate)
        refine ⟨_, (adds_emit before .negate).trans hadds, ?_⟩
        intro low
        exact (raises_negate low).append (hraises low)

/-- What is added for an expression: self-contained code, which leaves one value more unless it has been cut off. -/
def AddsValue (before : Assembler) (added : Except Fault Unit × Assembler) : Prop :=
  ∃ code, Adds before added.2 code ∧ IsSelfContained code ∧ (added.1 = .ok () → ∀ low, Raises code low (low + 1))

section AddsValue

variable {before after : Assembler} {code : List Instruction}

theorem addsValue_of_cut (hadds : Adds before after code) (hself : IsSelfContained code) (fault : Fault) :
    AddsValue before (.error fault, after) := by
  refine ⟨code, hadds, hself, ?_⟩
  intro hok
  simp at hok

theorem addsValue_of_raises (hadds : Adds before after code) (hraises : ∀ low, Raises code low (low + 1))
    (outcome : Except Fault Unit) : AddsValue before (outcome, after) :=
  ⟨code, hadds, isSelfContained_of_raises hraises, fun _ => hraises⟩

end AddsValue

theorem addsValue_addVisits (expr : Expr) (before : Assembler) :
    AddsValue before (addVisits expr.postOrder before) := by
  induction expr generalizing before with
  | literal token =>
    rw [Expr.postOrder, addVisits_singleton, addVisit]
    cases hvalue : token.value with
    | error fault =>
      rw [addLiteral_of_error hvalue]
      exact addsValue_of_cut rfl isSelfContained_nil fault
    | ok value =>
      rw [addLiteral_of_ok hvalue]
      exact addsValue_of_raises (adds_emit before _) (raises_const value) _
  | chain token signs =>
    rw [Expr.postOrder, addVisits_singleton, addVisit]
    cases hvalue : token.value with
    | error fault =>
      rw [addLiteral_of_error hvalue]
      exact addsValue_of_cut rfl isSelfContained_nil fault
    | ok value =>
      rw [addLiteral_of_ok hvalue]
      -- No sign changes the height, so wherever the signs end there is one value more.
      obtain ⟨code, hadds, hsigns⟩ := exists_raises_of_addSigns signs.reverse (before.emit (.const value))
      have hraises : ∀ low, Raises ([.const value] ++ code) low (low + 1) := by
        intro low
        exact (raises_const value low).append (hsigns low)
      exact addsValue_of_raises ((adds_emit before _).trans hadds) hraises _
  | binary operator left right ihleft ihright =>
    obtain ⟨leftCode, hleftAdds, hleftSelf, hleftRaises⟩ := ihleft before
    rw [Expr.postOrder, addVisits_append, addVisits_append]
    rcases hleft : addVisits left.postOrder before with ⟨_ | _, middle⟩
    case error fault =>
      rw [hleft] at hleftAdds
      exact addsValue_of_cut hleftAdds hleftSelf fault
    obtain ⟨rightCode, hrightAdds, hrightSelf, hrightRaises⟩ := ihright middle
    rw [hleft] at hleftAdds hleftRaises
    dsimp only
    rcases hright : addVisits right.postOrder middle with ⟨_ | _, last⟩
    case error fault =>
      rw [hright] at hrightAdds
      exact addsValue_of_cut (hleftAdds.trans hrightAdds) (hleftSelf.append hrightSelf) fault
    rw [hright] at hrightAdds hrightRaises
    dsimp only
    rw [addVisits_singleton, addVisit]
    cases BinaryOperator.ofToken operator with
    | error fault => exact addsValue_of_cut (hleftAdds.trans hrightAdds) (hleftSelf.append hrightSelf) fault
    | ok binary =>
      have hraises : ∀ low, Raises (leftCode ++ rightCode ++ [.binary binary operator.position]) low (low + 1) := by
        intro low
        have hoperands := (hleftRaises rfl low).append (hrightRaises rfl (low + 1))
        exact hoperands.append (raises_binary binary operator.position low)
      exact addsValue_of_raises ((hleftAdds.trans hrightAdds).trans (adds_emit last _)) hraises _

theorem addsValue_add (expr : Expr) (before : Assembler) : AddsValue before (before.add expr) := by
  rw [add, Expr.visits_eq_postOrder]
  exact addsValue_addVisits expr before

/-! ### The code of several expressions -/

/-- Adds expressions in turn, also behind one that has failed, and lists the outcomes. -/
def addAll : List Expr → Assembler → List (Except Fault Unit) × Assembler
  | [], assembler => ([], assembler)
  | expr :: exprs, assembler =>
    let added := assembler.add expr
    let rest := addAll exprs added.2
    (added.1 :: rest.1, rest.2)

theorem addAll_append (first second : List Expr) (before : Assembler) :
    addAll (first ++ second) before =
      ((addAll first before).1 ++ (addAll second (addAll first before).2).1,
        (addAll second (addAll first before).2).2) := by
  induction first generalizing before with
  | nil => rfl
  | cons expr exprs ih => simp only [List.cons_append, addAll, ih]

theorem exists_selfContained_of_addAll (exprs : List Expr) (before : Assembler) :
    ∃ code, Adds before (addAll exprs before).2 code ∧ IsSelfContained code := by
  induction exprs generalizing before with
  | nil => exact ⟨[], rfl, isSelfContained_nil⟩
  | cons expr exprs ih =>
    obtain ⟨code, hadds, hself, -⟩ := addsValue_add expr before
    obtain ⟨rest, hrestAdds, hrestSelf⟩ := ih (before.add expr).2
    exact ⟨_, hadds.trans hrestAdds, hself.append hrestSelf⟩

theorem addVisits_of_add_ok {expr : Expr} {before : Assembler} (h : (before.add expr).1 = .ok ()) :
    addVisits expr.postOrder before = (.ok (), (before.add expr).2) := by
  rw [← h, add, Expr.visits_eq_postOrder]

/-- Where nothing has failed, the code works out one expression after another and stops at the first fault. -/
theorem exists_code_of_addAll {exprs : List Expr} {before : Assembler}
    (h : ∀ outcome ∈ (addAll exprs before).1, outcome = .ok ()) :
    ∃ code, Adds before (addAll exprs before).2 code ∧ ∀ stack,
      faultOf (stepAll code stack) = exprs.findSome? fun expr => faultOf expr.evaluate := by
  induction exprs generalizing before with
  | nil => exact ⟨[], rfl, fun stack => rfl⟩
  | cons expr exprs ih =>
    obtain ⟨hadded, hrest⟩ := List.forall_mem_cons.mp h
    obtain ⟨code, hadds, hcode⟩ := exists_code_of_addVisits (addVisits_of_add_ok hadded)
    obtain ⟨rest, hrestAdds, hrestCode⟩ := ih hrest
    refine ⟨_, hadds.trans hrestAdds, ?_⟩
    intro stack
    rw [stepAll_append, hcode, List.findSome?_cons, Expr.evaluate_eq_value]
    cases expr.value with
    | error fault => rfl
    | ok value => exact hrestCode (value :: stack)

theorem Adds.instructions_eq {before after : Assembler} {code : List Instruction} (h : Adds before after code) :
    after.program.instructions = before.program.instructions ++ code := by
  rw [program, program, show after.emitted = _ from h, List.reverse_append, List.reverse_reverse]

end Assembler

namespace Expr

open Instruction

/-- The program that an assembler has made of several expressions, whichever of them failed. -/
def compileAll (exprs : List Expr) : Program :=
  (Assembler.addAll exprs .empty).2.program

theorem isSelfContained_compileAll (exprs : List Expr) : IsSelfContained (compileAll exprs).instructions := by
  obtain ⟨code, hadds, hself⟩ := Assembler.exists_selfContained_of_addAll exprs .empty
  rw [compileAll, hadds.instructions_eq]
  exact hself

theorem step_ne_emptyStack {exprs : List Expr} {done rest : List Instruction} {instruction : Instruction}
    {stack : List Int64} (h : (compileAll exprs).instructions = done ++ instruction :: rest)
    (hstack : stepAll done [] = .ok stack) : instruction.step stack ≠ .error emptyStack := by
  obtain ⟨high, hraises, -, -⟩ := isSelfContained_compileAll exprs 0
  rw [h] at hraises
  obtain ⟨middle, hdone, hinstruction⟩ := hraises.exists_middle
  have hlength : stack.length = middle := by
    rcases hdone.stepAll List.length_nil with ⟨next, hnext, hlength⟩ | ⟨position, -, hfault⟩
    · rw [hstack] at hnext
      rwa [Except.ok.inj hnext]
    · rw [hstack] at hfault
      exact absurd hfault (by simp)
  intro hempty
  cases hinstruction with
  | cons hoperands hrest =>
    rcases step_of_operandCount_le (hlength ▸ hoperands) with ⟨next, hnext, -⟩ | ⟨position, -, hfault⟩
    · rw [hempty] at hnext
      exact absurd hnext (by simp)
    · rw [hempty] at hfault
      exact absurd hfault (by simp [emptyStack])

theorem outcome_compileAll {exprs : List Expr} (hne : (compileAll exprs).instructions ≠ []) :
    (∃ value rest, stepAll (compileAll exprs).instructions [] = .ok (value :: rest)) ∨
      ∃ position, .binary .divide position ∈ (compileAll exprs).instructions ∧
        stepAll (compileAll exprs).instructions [] = .error ⟨.divisionByZero, position⟩ := by
  obtain ⟨high, hraises, -, hpos⟩ := isSelfContained_compileAll exprs 0
  rcases hraises.stepAll List.length_nil with ⟨stack, hstack, hlength⟩ | hfault
  · have hstackNe : stack ≠ [] := by
      apply List.length_pos_iff.mp
      rw [hlength]
      exact hpos hne
    obtain ⟨value, rest, rfl⟩ := List.exists_cons_of_ne_nil hstackNe
    exact Or.inl ⟨value, rest, hstack⟩
  · exact Or.inr hfault

/-- The last of several expressions is worked out on top of the values of the others. -/
theorem run_compileAll_append {front : List Expr} {last : Expr}
    (h : ∀ outcome ∈ (Assembler.addAll (front ++ [last]) .empty).1, outcome = .ok ()) :
    (compileAll (front ++ [last])).run =
      match front.findSome? fun expr => faultOf expr.evaluate with
      | some fault => .error fault
      | none => last.evaluate := by
  rw [Assembler.addAll_append] at h
  obtain ⟨hfront, hlast⟩ := List.forall_mem_append.mp h
  obtain ⟨code, hadds, hcode⟩ := Assembler.exists_code_of_addAll hfront
  have hlastOk := Assembler.addVisits_of_add_ok (hlast _ List.mem_cons_self)
  obtain ⟨lastCode, hlastAdds, hlastCode⟩ := Assembler.exists_code_of_addVisits hlastOk
  have hinstructions : (compileAll (front ++ [last])).instructions = code ++ lastCode := by
    rw [compileAll, Assembler.addAll_append]
    exact (hadds.trans hlastAdds).instructions_eq
  rw [Program.run, hinstructions, stepAll_append, ← hcode []]
  cases stepAll code [] with
  | error fault => rfl
  | ok stack =>
    simp only [Except.bind, hlastCode, faultOf, evaluate_eq_value]
    cases last.value <;> rfl

/-- **Programs of several expressions.** Each expression only adds instructions, also when it fails. A program that is
not empty never lacks an operand, so it ends with a value or as one of its divisions by zero. If no expression failed,
the program ends with the first fault of an expression, or with the value of the last one. -/
theorem run_compileAll (exprs : List Expr) :
    (∀ front expr back, exprs = front ++ expr :: back →
      (compileAll front).instructions <+:
        ((Assembler.addAll front .empty).2.add expr).2.program.instructions) ∧
    ((compileAll exprs).instructions ≠ [] →
      (∀ done instruction rest stack, (compileAll exprs).instructions = done ++ instruction :: rest →
        stepAll done [] = .ok stack → instruction.step stack ≠ .error emptyStack) ∧
      (∀ stack, stepAll (compileAll exprs).instructions [] = .ok stack → stack ≠ []) ∧
      ((∃ value, (compileAll exprs).run = .ok value) ∨
        ∃ position, .binary .divide position ∈ (compileAll exprs).instructions ∧
          (compileAll exprs).run = .error ⟨.divisionByZero, position⟩)) ∧
    ∀ last, exprs.getLast? = some last → (∀ outcome ∈ (Assembler.addAll exprs .empty).1, outcome = .ok ()) →
      (∀ fault, (exprs.findSome? fun expr => faultOf expr.evaluate) = some fault →
        (compileAll exprs).run = .error fault) ∧
      ((exprs.findSome? fun expr => faultOf expr.evaluate) = none → (compileAll exprs).run = last.evaluate) := by
  refine ⟨?_, ?_, ?_⟩
  · intro front expr back _
    obtain ⟨code, hadds, -, -⟩ := Assembler.addsValue_add expr (Assembler.addAll front .empty).2
    exact ⟨code, hadds.instructions_eq.symm⟩
  · intro hne
    refine ⟨?_, ?_, ?_⟩
    · intro done instruction rest stack hsplit hstack
      exact step_ne_emptyStack hsplit hstack
    · intro stack hstack
      rcases outcome_compileAll hne with ⟨value, rest, hvalue⟩ | ⟨position, -, hfault⟩
      · rw [hstack] at hvalue
        rw [Except.ok.inj hvalue]
        exact List.cons_ne_nil value rest
      · rw [hstack] at hfault
        exact absurd hfault (by simp)
    · rcases outcome_compileAll hne with ⟨value, rest, hvalue⟩ | ⟨position, hmem, hfault⟩
      · exact Or.inl ⟨value, by rw [Program.run, hvalue]⟩
      · exact Or.inr ⟨position, hmem, by rw [Program.run, hfault]⟩
  · intro last hlast houtcomes
    obtain ⟨front, rfl⟩ := List.getLast?_eq_some_iff.mp hlast
    rw [run_compileAll_append houtcomes, List.findSome?_append, List.findSome?_singleton]
    cases front.findSome? fun expr => faultOf expr.evaluate with
    | some fault => simp
    | none =>
      refine ⟨?_, fun _ => rfl⟩
      intro fault hfault
      exact eq_error_of_faultOf hfault

/-- A chain that is cut off behind its first sign. -/
def cutChain : Expr :=
  chain ⟨.integer, "2", .ofOffset 2 1⟩ [⟨.asterisk, "*", .ofOffset 0 1⟩, ⟨.minus, "-", .ofOffset 1 1⟩]

def one : Expr :=
  literal ⟨.integer, "1", .ofOffset 3 1⟩

/-- A literal still has a value behind a chain that is cut off, and behind another literal it has its own value. -/
theorem run_compileAll_cutChain :
    (compileAll [cutChain, one]).instructions = [.const 2, .negate, .const 1] ∧
      (∃ value, (compileAll [cutChain, one]).run = .ok value) ∧ (compileAll [one, one]).run = .ok 1 := by
  have hinstructions : (compileAll [cutChain, one]).instructions = [.const 2, .negate, .const 1] := by decide +kernel
  have hne : (compileAll [cutChain, one]).instructions ≠ [] := by simp [hinstructions]
  have houtcomes : (Assembler.addAll [one, one] .empty).1 = [.ok (), .ok ()] := by decide +kernel
  have hfaults : ([one, one].findSome? fun expr => faultOf expr.evaluate) = none := by decide +kernel
  have hvalue : one.evaluate = .ok 1 := by decide +kernel
  refine ⟨hinstructions, ?_, ?_⟩
  · rcases ((run_compileAll [cutChain, one]).2.1 hne).2.2 with hdone | ⟨position, hmem, -⟩
    · exact hdone
    · simp [hinstructions] at hmem
  · rw [← hvalue]
    apply ((run_compileAll [one, one]).2.2 one rfl _).2 hfaults
    simp [houtcomes]

end Expr

end Abacus
