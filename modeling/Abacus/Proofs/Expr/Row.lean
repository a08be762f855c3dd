import Abacus.Expr.Basic
import Abacus.Expr.Grammar

/-!
# Rows of operands

In a source without brackets an expression is a row: operands, each an integer behind signs, with an operator
between any two neighbours. Taking the operands in one at a time from the left gives the expression of the row. A
new operand goes to the right edge of what was built so far, below every operator that binds weaker than the one
in front of it. The expressions built like this are exactly the well-grouped ones, and their tokens are those of
the row.
-/

namespace Abacus

namespace TokenKind

/-- How strongly a kind of token binds in arithmetic: 1 for sums, 2 for products, 0 for what joins nothing. -/
def rank (kind : TokenKind) : Nat :=
  (Grammar.arithmetic.power kind).rank

theorem rank_eq_one_iff (kind : TokenKind) : kind.rank = 1 ↔ kind = .plus ∨ kind = .minus := by
  cases kind <;> decide

theorem rank_eq_two_iff (kind : TokenKind) : kind.rank = 2 ↔ kind = .asterisk ∨ kind = .slash := by
  cases kind <;> decide

theorem rank_le_two (kind : TokenKind) : kind.rank ≤ 2 := by
  cases kind <;> decide

theorem rank_pos_of_isSign {kind : TokenKind} (h : kind.isSign = true) : 0 < kind.rank := by
  cases kind <;> first | exact Nat.one_pos | simp [isSign] at h

end TokenKind

namespace Expr

def IsSum : Expr → Prop
  | binary operator _ _ => operator.kind = .plus ∨ operator.kind = .minus
  | _ => False

def IsLeaf : Expr → Prop
  | binary _ _ _ => False
  | _ => True

/-- Operators are grouped by strength and from the left: no sum stands below a product or to the right of an
operator, and to the right of a product sign stands a single operand. -/
def WellGrouped : Expr → Prop
  | literal token => token.kind = .integer
  | chain token signs =>
    token.kind = .integer ∧ signs ≠ [] ∧ ∀ sign ∈ signs, sign.kind = .plus ∨ sign.kind = .minus
  | binary operator left right =>
    left.WellGrouped ∧ right.WellGrouped ∧
      ((operator.kind = .plus ∨ operator.kind = .minus) ∧ ¬ right.IsSum ∨
        (operator.kind = .asterisk ∨ operator.kind = .slash) ∧ ¬ left.IsSum ∧ right.IsLeaf)

/-- How tightly an expression holds together; a leaf holds tighter than any operator. -/
def rank : Expr → Nat
  | binary operator _ _ => operator.kind.rank
  | _ => 3

theorem isLeaf_iff_rank (expr : Expr) : expr.IsLeaf ↔ expr.rank = 3 := by
  cases expr with
  | literal token => simp [IsLeaf, rank]
  | chain token signs => simp [IsLeaf, rank]
  | binary operator left right =>
    have := operator.kind.rank_le_two
    simp only [IsLeaf, rank, false_iff]
    omega

theorem isSum_iff_rank (expr : Expr) : expr.IsSum ↔ expr.rank = 1 := by
  cases expr with
  | literal token => simp [IsSum, rank]
  | chain token signs => simp [IsSum, rank]
  | binary operator left right => exact (operator.kind.rank_eq_one_iff).symm

theorem rank_le_three (expr : Expr) : expr.rank ≤ 3 := by
  cases expr with
  | literal token => exact Nat.le_refl 3
  | chain token signs => exact Nat.le_refl 3
  | binary operator left right => exact Nat.le_succ_of_le operator.kind.rank_le_two

theorem rank_pos_of_wellGrouped {expr : Expr} (h : expr.WellGrouped) : 0 < expr.rank := by
  cases expr with
  | literal token => exact Nat.succ_pos 2
  | chain token signs => exact Nat.succ_pos 2
  | binary operator left right =>
    obtain ⟨-, -, ⟨hsum, -⟩ | ⟨hproduct, -⟩⟩ := h
    · have := operator.kind.rank_eq_one_iff.mpr hsum
      simp only [rank]
      omega
    · have := operator.kind.rank_eq_two_iff.mpr hproduct
      simp only [rank]
      omega

theorem wellGrouped_binary_iff (operator : Token) (left right : Expr) :
    (binary operator left right).WellGrouped ↔
      left.WellGrouped ∧ right.WellGrouped ∧
        0 < operator.kind.rank ∧ operator.kind.rank ≤ left.rank ∧ operator.kind.rank < right.rank := by
  have hoperator := operator.kind.rank_le_two
  have hright := right.rank_le_three
  simp only [WellGrouped, isSum_iff_rank, isLeaf_iff_rank, ← TokenKind.rank_eq_one_iff,
    ← TokenKind.rank_eq_two_iff]
  constructor
  · rintro ⟨hwellLeft, hwellRight, hgrouped⟩
    have hleftPos := rank_pos_of_wellGrouped hwellLeft
    have hrightPos := rank_pos_of_wellGrouped hwellRight
    refine ⟨hwellLeft, hwellRight, ?_⟩
    omega
  · rintro ⟨hwellLeft, hwellRight, hgrouped⟩
    refine ⟨hwellLeft, hwellRight, ?_⟩
    omega

/-- Takes one more operand in at the right edge of an expression, behind an operator. -/
def extend (expr : Expr) (operator : Token) (operand : Expr) : Expr :=
  match expr with
  | binary head left right =>
    if head.kind.rank < operator.kind.rank then binary head left (right.extend operator operand)
    else binary operator (binary head left right) operand
  | leaf => binary operator leaf operand

theorem extend_of_le {operator : Token} {expr : Expr} (operand : Expr)
    (h : operator.kind.rank ≤ expr.rank) : expr.extend operator operand = binary operator expr operand := by
  cases expr with
  | literal token => rfl
  | chain token signs => rfl
  | binary head left right => exact if_neg (Nat.not_lt.mpr h)

theorem extend_of_lt {operator head : Token} {left right : Expr} (operand : Expr)
    (h : head.kind.rank < operator.kind.rank) :
    (binary head left right).extend operator operand =
      binary head left (right.extend operator operand) := by
  rw [extend, if_pos h]

theorem tokens_extend (operator : Token) (operand expr : Expr) :
    (expr.extend operator operand).tokens = expr.tokens ++ operator :: operand.tokens := by
  induction expr with
  | literal token => rfl
  | chain token signs => rfl
  | binary head left right ihleft ihright =>
    rw [extend]
    split
    · simp [tokens, ihright]
    · simp [tokens]

theorem rank_extend (operator : Token) (operand expr : Expr) :
    (expr.extend operator operand).rank = min expr.rank operator.kind.rank := by
  have hoperator := operator.kind.rank_le_two
  cases expr with
  | literal token => simp only [extend, rank]; omega
  | chain token signs => simp only [extend, rank]; omega
  | binary head left right =>
    rw [extend]
    split <;> simp only [rank] <;> omega

theorem wellGrouped_extend {operator : Token} {operand expr : Expr} (hoperator : 0 < operator.kind.rank)
    (hoperand : operand.WellGrouped) (hleaf : operand.rank = 3) (h : expr.WellGrouped) :
    (expr.extend operator operand).WellGrouped := by
  have hle := operator.kind.rank_le_two
  have hjoin : ∀ left : Expr, left.WellGrouped → operator.kind.rank ≤ left.rank →
      (left.extend operator operand).WellGrouped := by
    intro left hleft hrank
    rw [extend_of_le operand hrank, wellGrouped_binary_iff]
    exact ⟨hleft, hoperand, hoperator, hrank, by omega⟩
  induction expr with
  | literal token => exact hjoin _ h (by simp only [rank]; omega)
  | chain token signs => exact hjoin _ h (by simp only [rank]; omega)
  | binary head left right ihleft ihright =>
    by_cases hlt : head.kind.rank < operator.kind.rank
    · obtain ⟨hwellLeft, hwellRight, hpos, hheadLeft, hheadRight⟩ := (wellGrouped_binary_iff _ _ _).mp h
      rw [extend_of_lt operand hlt, wellGrouped_binary_iff, rank_extend]
      exact ⟨hwellLeft, ihright hwellRight, hpos, hheadLeft, by omega⟩
    · exact hjoin _ h (Nat.not_lt.mp hlt)

theorem tokens_signed (token : Token) (signs : List Token) : (signed token signs).tokens = signs ++ [token] := by
  unfold signed
  split
  · rename_i hempty
    rw [List.isEmpty_iff.mp hempty]
    rfl
  · rfl

end Expr

structure Operand where
  signs : List Token
  integer : Token
  isSign_of_mem : ∀ sign ∈ signs, sign.isSign = true
  kind_integer : integer.kind = .integer

namespace Operand

def tokens (operand : Operand) : List Token :=
  operand.signs ++ [operand.integer]

def expr (operand : Operand) : Expr :=
  .signed operand.integer operand.signs

theorem tokens_expr (operand : Operand) : operand.expr.tokens = operand.tokens :=
  Expr.tokens_signed operand.integer operand.signs

theorem rank_expr (operand : Operand) : operand.expr.rank = 3 := by
  unfold expr Expr.signed
  split <;> rfl

theorem wellGrouped_expr (operand : Operand) : operand.expr.WellGrouped := by
  unfold expr Expr.signed
  split
  · exact operand.kind_integer
  · rename_i hempty
    refine ⟨operand.kind_integer, ?_, ?_⟩
    · intro hnil
      exact hempty (List.isEmpty_iff.mpr hnil)
    · intro sign hmem
      have hsign := operand.isSign_of_mem sign hmem
      unfold Token.isSign at hsign
      cases hkind : sign.kind <;> simp [hkind, TokenKind.isSign] at hsign ⊢

theorem kind_of_mem {operand : Operand} {token : Token} (h : token ∈ operand.tokens) :
    token.kind = .integer ∨ 0 < token.kind.rank := by
  rcases List.mem_append.mp h with hsign | hinteger
  · exact Or.inr (TokenKind.rank_pos_of_isSign (operand.isSign_of_mem token hsign))
  · rw [List.mem_singleton.mp hinteger]
    exact Or.inl operand.kind_integer

end Operand

structure Joint where
  operator : Token
  operand : Operand
  rank_pos : 0 < operator.kind.rank

namespace Joint

def tokens (joint : Joint) : List Token :=
  joint.operator :: joint.operand.tokens

def extend (expr : Expr) (joint : Joint) : Expr :=
  expr.extend joint.operator joint.operand.expr

def extendAll (expr : Expr) (joints : List Joint) : Expr :=
  joints.foldl extend expr

@[simp]
theorem extendAll_nil (expr : Expr) : extendAll expr [] = expr := rfl

@[simp]
theorem extendAll_cons (expr : Expr) (joint : Joint) (joints : List Joint) :
    extendAll expr (joint :: joints) = extendAll (extend expr joint) joints := rfl

theorem tokens_extendAll (expr : Expr) (joints : List Joint) :
    (extendAll expr joints).tokens = expr.tokens ++ joints.flatMap tokens := by
  induction joints generalizing expr with
  | nil => simp
  | cons joint joints ih =>
    rw [extendAll_cons, ih, extend, Expr.tokens_extend, Operand.tokens_expr]
    simp [tokens]

theorem wellGrouped_extend {expr : Expr} (h : expr.WellGrouped) (joint : Joint) :
    (extend expr joint).WellGrouped :=
  Expr.wellGrouped_extend joint.rank_pos joint.operand.wellGrouped_expr joint.operand.rank_expr h

theorem wellGrouped_extendAll {expr : Expr} (h : expr.WellGrouped) (joints : List Joint) :
    (extendAll expr joints).WellGrouped := by
  induction joints generalizing expr with
  | nil => exact h
  | cons joint joints ih => exact ih (wellGrouped_extend h joint)

theorem rank_extendAll_le (expr : Expr) (joints : List Joint) : (extendAll expr joints).rank ≤ expr.rank := by
  induction joints generalizing expr with
  | nil => exact Nat.le_refl _
  | cons joint joints ih =>
    refine Nat.le_trans (ih (extend expr joint)) ?_
    rw [extend, Expr.rank_extend]
    exact Nat.min_le_left _ _

theorem rank_extendAll_le_of_mem {expr : Expr} {joints : List Joint} {joint : Joint} (h : joint ∈ joints) :
    (extendAll expr joints).rank ≤ joint.operator.kind.rank := by
  induction joints generalizing expr with
  | nil => simp at h
  | cons first joints ih =>
    rcases List.mem_cons.mp h with rfl | hmem
    · refine Nat.le_trans (rank_extendAll_le (extend expr joint) joints) ?_
      rw [extend, Expr.rank_extend]
      exact Nat.min_le_right _ _
    · exact ih hmem

/-- Operators that all bind stronger than the head of an expression leave its left side alone. -/
theorem extendAll_binary {operator : Token} (left right : Expr) {joints : List Joint}
    (h : ∀ joint ∈ joints, operator.kind.rank < joint.operator.kind.rank) :
    extendAll (.binary operator left right) joints = .binary operator left (extendAll right joints) := by
  induction joints generalizing right with
  | nil => rfl
  | cons joint joints ih =>
    have hfirst := h joint List.mem_cons_self
    rw [extendAll_cons, extend, Expr.extend_of_lt _ hfirst]
    apply ih
    intro other hmem
    exact h other (List.mem_cons_of_mem joint hmem)

end Joint

structure Row where
  first : Operand
  joints : List Joint

namespace Row

def tokens (row : Row) : List Token :=
  row.first.tokens ++ row.joints.flatMap Joint.tokens

def expr (row : Row) : Expr :=
  Joint.extendAll row.first.expr row.joints

theorem tokens_expr (row : Row) : row.expr.tokens = row.tokens := by
  rw [expr, Joint.tokens_extendAll, Operand.tokens_expr, tokens]

theorem wellGrouped_expr (row : Row) : row.expr.WellGrouped :=
  Joint.wellGrouped_extendAll row.first.wellGrouped_expr row.joints

theorem kind_of_mem {row : Row} {token : Token} (h : token ∈ row.tokens) :
    token.kind = .integer ∨ 0 < token.kind.rank := by
  rcases List.mem_append.mp h with hfirst | hjoints
  · exact Operand.kind_of_mem hfirst
  · obtain ⟨joint, -, hmem⟩ := List.mem_flatMap.mp hjoints
    rcases List.mem_cons.mp hmem with rfl | hoperand
    · exact Or.inr joint.rank_pos
    · exact Operand.kind_of_mem hoperand

theorem first_mem (row : Row) : row.first.integer ∈ row.tokens :=
  List.mem_append_left _ (List.mem_append_right _ List.mem_cons_self)

theorem joint_mem {row : Row} {joint : Joint} (h : joint ∈ row.joints) : joint.operand.integer ∈ row.tokens := by
  apply List.mem_append_right
  apply List.mem_flatMap_of_mem h
  apply List.mem_cons_of_mem
  exact List.mem_append_right _ List.mem_cons_self

end Row

theorem Expr.exists_operand {expr : Expr} (h : expr.WellGrouped) (hleaf : expr.IsLeaf) :
    ∃ operand : Operand, operand.expr = expr := by
  cases expr with
  | literal token => exact ⟨⟨[], token, by simp, h⟩, rfl⟩
  | chain token signs =>
    obtain ⟨hinteger, hsigns, hkinds⟩ := h
    refine ⟨⟨signs, token, ?_, hinteger⟩, ?_⟩
    · intro sign hmem
      rcases hkinds sign hmem with hkind | hkind <;> simp [Token.isSign, hkind, TokenKind.isSign]
    · exact if_neg (by simpa using hsigns)
  | binary operator left right => exact absurd hleaf id

/-- Every well-grouped expression is built from a row. -/
theorem Expr.exists_row {expr : Expr} (h : expr.WellGrouped) : ∃ row : Row, row.expr = expr := by
  induction expr with
  | literal token =>
    obtain ⟨operand, hoperand⟩ := exists_operand h trivial
    exact ⟨⟨operand, []⟩, hoperand⟩
  | chain token signs =>
    obtain ⟨operand, hoperand⟩ := exists_operand h trivial
    exact ⟨⟨operand, []⟩, hoperand⟩
  | binary operator left right ihleft ihright =>
    obtain ⟨hwellLeft, hwellRight, hpos, hleftRank, hrightRank⟩ := (wellGrouped_binary_iff _ _ _).mp h
    obtain ⟨leftRow, hleftRow⟩ := ihleft hwellLeft
    obtain ⟨rightRow, hrightRow⟩ := ihright hwellRight
    -- the operators of the right side all bind stronger, so the two rows can be laid end to end
    have hstronger : ∀ joint ∈ rightRow.joints, operator.kind.rank < joint.operator.kind.rank := by
      intro joint hmem
      refine Nat.lt_of_lt_of_le hrightRank ?_
      rw [← hrightRow]
      exact Joint.rank_extendAll_le_of_mem hmem
    refine ⟨⟨leftRow.first, leftRow.joints ++ ⟨operator, rightRow.first, hpos⟩ :: rightRow.joints⟩, ?_⟩
    have hleft : Joint.extendAll leftRow.first.expr leftRow.joints = left := hleftRow
    rw [Row.expr, Joint.extendAll, List.foldl_append, List.foldl_cons, ← Joint.extendAll, ← Joint.extendAll,
      hleft, Joint.extend, Expr.extend_of_le _ hleftRank, Joint.extendAll_binary _ _ hstronger]
    exact congrArg _ hrightRow

end Abacus
