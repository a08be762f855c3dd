import Abacus.Proofs.Expr.Parallel
import Abacus.Proofs.Numeral
import Abacus.Proofs.Program.Agreement
import Abacus.Proofs.Text.Lines

/-!
# Reading a listing

Every instruction has a line of its own in the listing of a program. The line tells everything about the instruction but
the position that an operation keeps for its fault, and no line is empty or has a line feed in it. So a listing tells
its program up to positions. A program never looks at positions on its way, and all programs with one listing come to
the same value.
-/

namespace Abacus

namespace Instruction

/-- Instructions that differ in the position of an operation at most. -/
inductive Alike : Instruction → Instruction → Prop
  | const (value : Int64) : Alike (.const value) (.const value)
  | negate : Alike .negate .negate
  | binary (operator : BinaryOperator) (position other : Position) :
      Alike (.binary operator position) (.binary operator other)

/-- The character behind the dot tells instructions apart, up to their arguments. -/
def letter : Instruction → Char
  | const _ => 'c'
  | negate => 'n'
  | binary .add _ => 'a'
  | binary .subtract _ => 's'
  | binary .multiply _ => 'm'
  | binary .divide _ => 'd'

theorem getElem?_text (instruction : Instruction) : instruction.text.toList[4]? = some instruction.letter := by
  cases instruction with
  | const value => simp [text, letter]
  | negate => simp [text, letter]
  | binary operator position => cases operator <;> simp [text, letter]

theorem toList_text_ne_nil (instruction : Instruction) : instruction.text.toList ≠ [] := by
  intro hnil
  have hletter := instruction.getElem?_text
  simp [hnil] at hletter

theorem feed_notMem_text (instruction : Instruction) : '\n' ∉ instruction.text.toList := by
  cases instruction with
  | const value =>
    rw [text, String.toList_append, List.mem_append, not_or]
    exact ⟨by decide, Text.feed_notMem_toString_int _⟩
  | negate => decide
  | binary operator position => cases operator <;> simp [text]

theorem Alike.text_eq {left right : Instruction} (h : left.Alike right) : left.text = right.text := by
  cases h with
  | const value => rfl
  | negate => rfl
  | binary operator position other => cases operator <;> rfl

theorem alike_of_text_eq {left right : Instruction} (h : left.text = right.text) : left.Alike right := by
  have hletter : left.letter = right.letter := by
    rw [← Option.some_inj, ← getElem?_text, ← getElem?_text, h]
  cases left with
  | const value =>
    cases right with
    | const other =>
      have hnumber : toString value.toInt = toString other.toInt := (String.append_right_inj _).mp h
      have hvalue : some value = some other := by
        rw [← Numeral.value?_toString value, hnumber, Numeral.value?_toString]
      rw [Option.some.inj hvalue]
      exact .const other
    | negate => simp [letter] at hletter
    | binary operator position => cases operator <;> simp [letter] at hletter
  | negate =>
    cases right with
    | const other => simp [letter] at hletter
    | negate => exact .negate
    | binary operator position => cases operator <;> simp [letter] at hletter
  | binary operator position =>
    cases right with
    | const other => cases operator <;> simp [letter] at hletter
    | negate => cases operator <;> simp [letter] at hletter
    | binary another other =>
      have hoperator : operator = another := by
        cases operator <;> cases another <;> first | rfl | simp [letter] at hletter
      rw [hoperator]
      exact .binary another position other

end Instruction

namespace Program

/-- The lines of a listing are the texts of the instructions. -/
theorem splitOn_listing {program : Program} (h : program.instructions ≠ []) :
    program.listing.toList.splitOn '\n' = program.instructions.map fun instruction => instruction.text.toList := by
  rw [listing, String.toList_intercalate, List.map_map]
  refine List.splitOn_intercalate '\n' ?_ (by simpa using h)
  intro line hmem
  obtain ⟨instruction, -, rfl⟩ := List.mem_map.mp hmem
  exact instruction.feed_notMem_text

theorem listing_eq_empty_iff (program : Program) : program.listing = "" ↔ program.instructions = [] := by
  constructor
  · intro hlisting
    by_contra hne
    have hlines := splitOn_listing hne
    rw [hlisting] at hlines
    obtain ⟨instruction, hmem⟩ := List.exists_mem_of_ne_nil _ hne
    have hline : instruction.text.toList ∈ "".toList.splitOn '\n' := by
      rw [hlines]
      exact List.mem_map_of_mem hmem
    exact instruction.toList_text_ne_nil (List.mem_singleton.mp hline)
  · intro hnil
    rw [listing, hnil]
    rfl

/-- A listing tells its program up to positions. -/
theorem listing_eq_iff (left right : Program) :
    left.listing = right.listing ↔ List.Forall₂ Instruction.Alike left.instructions right.instructions := by
  constructor
  · intro h
    -- a listing without lines is split into one empty line, so the empty program stands apart
    by_cases hleft : left.instructions = []
    · have hright : right.instructions = [] := by
        rwa [← listing_eq_empty_iff, ← h, listing_eq_empty_iff]
      rw [hleft, hright]
      exact .nil
    · have hright : right.instructions ≠ [] := by
        rwa [ne_eq, ← listing_eq_empty_iff, ← h, listing_eq_empty_iff]
      have hlines := splitOn_listing hleft
      rw [h, splitOn_listing hright, ← List.forall₂_eq_eq_eq, List.forall₂_map_left_iff,
        List.forall₂_map_right_iff] at hlines
      exact hlines.flip.imp fun _ _ htext => Instruction.alike_of_text_eq (String.toList_injective htext.symm)
  · intro h
    have htexts : left.instructions.map Instruction.text = right.instructions.map Instruction.text := by
      rw [← List.forall₂_eq_eq_eq, List.forall₂_map_left_iff, List.forall₂_map_right_iff]
      exact h.imp fun _ _ halike => halike.text_eq
    rw [listing, listing, htexts]

end Program

/-! ### Running a program that has been read from its listing -/

namespace Instruction

theorem Alike.step {left right : Instruction} (h : left.Alike right) (stack : List Int64) :
    InParallel Eq (fun first second => first.cause = second.cause) (left.step stack) (right.step stack) := by
  cases h with
  | const value => exact .ok rfl
  | negate =>
    match stack with
    | [] => exact .error rfl
    | value :: stack => exact .ok rfl
  | binary operator position other =>
    match stack with
    | [] => exact .error rfl
    | [value] => exact .error rfl
    | second :: first :: stack =>
      simp only [Instruction.step]
      cases operator.result? first second with
      | some value => exact .ok rfl
      | none => exact .error rfl

theorem stepAll_cons (instruction : Instruction) (instructions : List Instruction) (stack : List Int64) :
    stepAll (instruction :: instructions) stack = (instruction.step stack).bind (stepAll instructions) := by
  rw [← List.singleton_append, stepAll_append, stepAll_singleton]

theorem inParallel_stepAll {left right : List Instruction} (h : List.Forall₂ Alike left right) (stack : List Int64) :
    InParallel Eq (fun first second => first.cause = second.cause) (stepAll left stack) (stepAll right stack) := by
  induction h generalizing stack with
  | nil => exact .ok rfl
  | cons hfirst _ ih =>
    rw [stepAll_cons, stepAll_cons]
    refine (hfirst.step stack).bind ?_
    rintro next _ rfl
    exact ih next

end Instruction

theorem Program.inParallel_run {left right : Program} (h : left.listing = right.listing) :
    InParallel Eq (fun first second => first.cause = second.cause) left.run right.run := by
  have hstack := Instruction.inParallel_stepAll ((listing_eq_iff left right).mp h) []
  unfold run
  generalize Instruction.stepAll left.instructions [] = leftOutcome at hstack ⊢
  generalize Instruction.stepAll right.instructions [] = rightOutcome at hstack ⊢
  cases hstack with
  | @ok stack _ hsame =>
    subst hsame
    cases stack with
    | nil => exact .error rfl
    | cons value stack => exact .ok rfl
  | error hfault => exact .error hfault

theorem Program.run_eq_ok_of_listing_eq {left right : Program} (h : left.listing = right.listing) {value : Int64}
    (hrun : left.run = .ok value) : right.run = .ok value := by
  rcases (inParallel_run h).eq_or_error with ⟨other, hleft, hright⟩ | ⟨fault, _, hleft, -⟩
  · rw [hright, ← hleft, hrun]
  · simp [hrun] at hleft

end Abacus
