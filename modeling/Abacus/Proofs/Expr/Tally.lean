import Abacus.Proofs.Expr.Row
import Abacus.Proofs.Expr.Value
import Abacus.Proofs.Numeral

/-!
# Working out a row in one pass

A row has a value that needs no expression: keep the sum so far, the sign of the term that is being multiplied
up, and that term. A product sign changes the term; a sum sign adds the term to the sum and starts a new one. The
numbers are integers, brought back into 64 bits after each operation. This tally follows the right edge of the
expression of the row: the sum is the value of its left side and the term that of its right side, so each operand
taken in changes both alike, and the first fault met along the row is the one that the expression has.
-/

namespace Abacus

/-- The number that 64 bits hold of an integer. -/
def wrap (number : Int) : Int :=
  number.bmod (2 ^ 64)

theorem wrap_toInt (value : Int64) : wrap value.toInt = value.toInt :=
  Int64.toInt_bmod_size value

/-- The number of an operand: that of its digits, negated by an odd number of minus signs. -/
def Operand.number (operand : Operand) : Except Fault Int :=
  let magnitude := operand.integer.magnitude
  if 2 ^ 63 ≤ magnitude then .error ⟨.invalidLiteral operand.integer.literal, operand.integer.position⟩
  else if (operand.signs.countP fun sign => decide (sign.kind = .minus)) % 2 = 1 then .ok (-magnitude)
  else .ok magnitude

/-- The sum so far, the sign in front of the current term, and the term. -/
structure Tally where
  sum : Int
  pending : TokenKind
  term : Int

namespace Tally

def start (number : Int) : Tally :=
  ⟨0, .plus, number⟩

def total (tally : Tally) : Int :=
  if tally.pending = .minus then wrap (tally.sum - tally.term) else wrap (tally.sum + tally.term)

def step (tally : Tally) (operator : TokenKind) (number : Int) : Tally :=
  match operator with
  | .asterisk => { tally with term := wrap (tally.term * number) }
  | .slash => { tally with term := wrap (tally.term.tdiv number) }
  | sign => ⟨tally.total, sign, number⟩

def scan (tally : Tally) : List Joint → Except Fault Int
  | [] => .ok tally.total
  | joint :: joints =>
    match joint.operand.number with
    | .error fault => .error fault
    | .ok number =>
      if joint.operator.kind = .slash ∧ number = 0 then .error ⟨.divisionByZero, joint.operator.position⟩
      else (tally.step joint.operator.kind number).scan joints

section Scan

variable {joint : Joint}

theorem scan_of_error {fault : Fault} (h : joint.operand.number = .error fault) (tally : Tally)
    (joints : List Joint) : tally.scan (joint :: joints) = .error fault := by
  rw [scan, h]

theorem scan_of_zero (hoperator : joint.operator.kind = .slash) (h : joint.operand.number = .ok 0) (tally : Tally)
    (joints : List Joint) :
    tally.scan (joint :: joints) = .error ⟨.divisionByZero, joint.operator.position⟩ := by
  rw [scan, h]
  exact if_pos ⟨hoperator, rfl⟩

theorem scan_of_ok {number : Int} (h : joint.operand.number = .ok number)
    (hzero : ¬ (joint.operator.kind = .slash ∧ number = 0)) (tally : Tally) (joints : List Joint) :
    tally.scan (joint :: joints) = (tally.step joint.operator.kind number).scan joints := by
  rw [scan, h]
  exact if_neg hzero

end Scan

end Tally

def Row.scan (row : Row) : Except Fault Int :=
  match row.first.number with
  | .error fault => .error fault
  | .ok number => (Tally.start number).scan row.joints

theorem Operand.cause_of_number {operand : Operand} {fault : Fault} (h : operand.number = .error fault) :
    fault.cause = .invalidLiteral operand.integer.literal := by
  unfold number at h
  by_cases hlarge : 2 ^ 63 ≤ operand.integer.magnitude
  · rw [if_pos hlarge] at h
    obtain rfl := Except.error.inj h
    rfl
  · rw [if_neg hlarge] at h
    split at h <;> simp at h

theorem Tally.cause_of_scan {tally : Tally} {joints : List Joint} {fault : Fault}
    (h : tally.scan joints = .error fault) :
    fault.cause = .divisionByZero ∨ ∃ literal, fault.cause = .invalidLiteral literal := by
  induction joints generalizing tally with
  | nil => simp [scan] at h
  | cons joint joints ih =>
    cases hnumber : joint.operand.number with
    | error other =>
      rw [scan_of_error hnumber] at h
      obtain rfl := Except.error.inj h
      exact Or.inr ⟨_, Operand.cause_of_number hnumber⟩
    | ok number =>
      by_cases hzero : joint.operator.kind = .slash ∧ number = 0
      · obtain ⟨hslash, rfl⟩ := hzero
        rw [scan_of_zero hslash hnumber] at h
        obtain rfl := Except.error.inj h
        exact Or.inl rfl
      · rw [scan_of_ok hnumber hzero] at h
        exact ih h

theorem Row.cause_of_scan {row : Row} {fault : Fault} (h : row.scan = .error fault) :
    fault.cause = .divisionByZero ∨ ∃ literal, fault.cause = .invalidLiteral literal := by
  unfold scan at h
  cases hnumber : row.first.number with
  | error other =>
    rw [hnumber] at h
    obtain rfl := Except.error.inj h
    exact Or.inr ⟨_, Operand.cause_of_number hnumber⟩
  | ok number =>
    rw [hnumber] at h
    exact Tally.cause_of_scan h

/-! ### Operands -/

theorem applySigns_of_isSign {signs : List Token} (h : ∀ sign ∈ signs, sign.isSign = true) (value : Int64) :
    applySigns signs value =
      .ok (if (signs.countP fun sign => decide (sign.kind = .minus)) % 2 = 1 then -value else value) := by
  induction signs generalizing value with
  | nil => rfl
  | cons sign signs ih =>
    have hrest : ∀ other ∈ signs, other.isSign = true := by
      intro other hmem
      exact h other (List.mem_cons_of_mem sign hmem)
    have hsigns := ih hrest
    have hsign := h sign List.mem_cons_self
    rw [applySigns, UnaryOperator.ofToken]
    unfold Token.isSign at hsign
    cases hkind : sign.kind <;> simp [hkind, TokenKind.isSign] at hsign
    case plus =>
      simp only [UnaryOperator.ofKind?, UnaryOperator.result, hsigns]
      simp [hkind]
    case minus =>
      simp only [UnaryOperator.ofKind?, UnaryOperator.result, hsigns]
      rw [List.countP_cons_of_pos (by simp [hkind])]
      by_cases hodd : (signs.countP fun sign => decide (sign.kind = .minus)) % 2 = 1
      · rw [if_pos hodd, if_neg (by omega), Int64.neg_neg]
      · rw [if_neg hodd, if_pos (by omega)]

theorem Operand.value_expr (operand : Operand) :
    operand.expr.value = operand.integer.value.bind (applySigns operand.signs.reverse) := by
  unfold expr Expr.signed
  split
  · rename_i hempty
    rw [List.isEmpty_iff.mp hempty, Expr.value]
    cases operand.integer.value <;> rfl
  · rfl

theorem Operand.map_toInt_value_expr {operand : Operand} (h : operand.integer.IsDigits) :
    operand.expr.value.map Int64.toInt = operand.number := by
  have hsigns : ∀ sign ∈ operand.signs.reverse, sign.isSign = true := by
    intro sign hmem
    exact operand.isSign_of_mem sign (List.mem_reverse.mp hmem)
  rw [value_expr, Token.value_of_isDigits h, number]
  by_cases hlarge : 2 ^ 63 ≤ operand.integer.magnitude
  · simp only [if_pos hlarge]
    rfl
  · have hvalue : (Int64.ofInt operand.integer.magnitude).toInt = operand.integer.magnitude :=
      Int64.toInt_ofInt_of_le (by omega) (by omega)
    simp only [if_neg hlarge, Except.bind, applySigns_of_isSign hsigns, List.countP_reverse, Except.map]
    by_cases hodd : (operand.signs.countP fun sign => decide (sign.kind = .minus)) % 2 = 1
    · rw [if_pos hodd, if_pos hodd, Int64.toInt_neg, hvalue]
      congr 1
      exact Int.bmod_eq_of_le (by omega) (by omega)
    · rw [if_neg hodd, if_neg hodd, hvalue]

/-! ### Faults of a grown expression -/

theorem applyBinary_of_rank_one {operator : Token} (h : operator.kind.rank = 1) (left right : Int64) :
    applyBinary operator left right = .ok (if operator.kind = .minus then left - right else left + right) := by
  rcases operator.kind.rank_eq_one_iff.mp h with hkind | hkind <;>
    simp [applyBinary, BinaryOperator.ofToken, BinaryOperator.ofKind?, BinaryOperator.result?, hkind]

theorem applyBinary_asterisk {operator : Token} (h : operator.kind = .asterisk) (left right : Int64) :
    applyBinary operator left right = .ok (left * right) := by
  simp [applyBinary, BinaryOperator.ofToken, BinaryOperator.ofKind?, BinaryOperator.result?, h]

theorem applyBinary_slash {operator : Token} (h : operator.kind = .slash) (left right : Int64) :
    applyBinary operator left right =
      if right = 0 then .error ⟨.divisionByZero, operator.position⟩ else .ok (left / right) := by
  by_cases hzero : right = 0 <;>
    simp [applyBinary, BinaryOperator.ofToken, BinaryOperator.ofKind?, BinaryOperator.result?, h, hzero]

namespace Expr

/-- The fault of a new operand is the fault of the grown expression, unless that had one before. -/
theorem value_extend_of_operand_error {expr operand : Expr} {value : Int64} {fault : Fault}
    (hexpr : expr.value = .ok value) (hoperand : operand.value = .error fault) (operator : Token) :
    (expr.extend operator operand).value = .error fault := by
  induction expr generalizing value with
  | literal token => exact value_binary_of_right_error hexpr hoperand
  | chain token signs => exact value_binary_of_right_error hexpr hoperand
  | binary head left right ihleft ihright =>
    by_cases hlt : head.kind.rank < operator.kind.rank
    · rw [extend_of_lt operand hlt]
      cases hleft : left.value with
      | error other =>
        rw [value_binary_of_left_error hleft] at hexpr
        simp at hexpr
      | ok leftValue =>
        cases hright : right.value with
        | error other =>
          rw [value_binary_of_right_error hleft hright] at hexpr
          simp at hexpr
        | ok rightValue => exact value_binary_of_right_error hleft (ihright hright)
    · have hle : operator.kind.rank ≤ (binary head left right).rank := Nat.not_lt.mp hlt
      rw [extend_of_le operand hle]
      exact value_binary_of_right_error hexpr hoperand

/-- An expression that has a fault keeps it while it grows: an operand that goes below its head goes below a
sum sign, which has no fault of its own. -/
theorem value_extend_of_error {expr : Expr} {fault : Fault} (h : expr.WellGrouped)
    (hexpr : expr.value = .error fault) (operator : Token) (operand : Expr) :
    (expr.extend operator operand).value = .error fault := by
  induction expr with
  | literal token => exact value_binary_of_left_error hexpr
  | chain token signs => exact value_binary_of_left_error hexpr
  | binary head left right ihleft ihright =>
    by_cases hlt : head.kind.rank < operator.kind.rank
    · -- only a sum sign lets a stronger operator go below it
      obtain ⟨-, hwellRight, hpos, -, -⟩ := (wellGrouped_binary_iff _ _ _).mp h
      have hle := operator.kind.rank_le_two
      have hone : head.kind.rank = 1 := by omega
      rw [extend_of_lt operand hlt]
      cases hleft : left.value with
      | error other =>
        rw [value_binary_of_left_error hleft] at hexpr ⊢
        exact hexpr
      | ok leftValue =>
        cases hright : right.value with
        | error other =>
          rw [value_binary_of_right_error hleft hright] at hexpr
          obtain rfl := Except.error.inj hexpr
          exact value_binary_of_right_error hleft (ihright hwellRight hright)
        | ok rightValue =>
          rw [value_binary_of_ok hleft hright, applyBinary_of_rank_one hone] at hexpr
          simp at hexpr
    · have hle : operator.kind.rank ≤ (binary head left right).rank := Nat.not_lt.mp hlt
      rw [extend_of_le operand hle]
      exact value_binary_of_left_error hexpr

end Expr

theorem Joint.value_extendAll_of_error {expr : Expr} {fault : Fault} (h : expr.WellGrouped)
    (hexpr : expr.value = .error fault) (joints : List Joint) :
    (extendAll expr joints).value = .error fault := by
  induction joints generalizing expr with
  | nil => exact hexpr
  | cons joint joints ih =>
    exact ih (wellGrouped_extend h joint) (Expr.value_extend_of_error h hexpr joint.operator joint.operand.expr)

/-! ### The tally of an expression -/

namespace Tally

/-- A tally holds an expression when its term is what stands to the right of the last sum sign, and its sum what
stands to the left of it. -/
inductive Holds : Tally → Expr → Prop
  | product {expr : Expr} {term : Int64} (hrank : 1 < expr.rank) (hterm : expr.value = .ok term) :
    Holds (start term.toInt) expr
  | sum {operator : Token} {left right : Expr} {leftValue term : Int64} (hoperator : operator.kind.rank = 1)
    (hrank : 1 < right.rank) (hleft : left.value = .ok leftValue) (hterm : right.value = .ok term) :
    Holds ⟨leftValue.toInt, operator.kind, term.toInt⟩ (.binary operator left right)

section Holds

variable {tally : Tally} {expr operand : Expr} {operator : Token} {number : Int64}

theorem Holds.exists_value (h : tally.Holds expr) :
    ∃ value : Int64, expr.value = .ok value ∧ value.toInt = tally.total := by
  cases h with
  | @product expr term hrank hterm =>
    refine ⟨term, hterm, ?_⟩
    rw [start, total, if_neg (by simp), Int.zero_add, wrap_toInt]
  | @sum operator left right leftValue term hoperator hrank hleft hterm =>
    rw [Expr.value_binary_of_ok hleft hterm, applyBinary_of_rank_one hoperator]
    refine ⟨_, rfl, ?_⟩
    by_cases hminus : operator.kind = .minus
    · rw [if_pos hminus, total, if_pos hminus, Int64.toInt_sub]
      rfl
    · rw [if_neg hminus, total, if_neg hminus, Int64.toInt_add]
      rfl

theorem Holds.rank_pos (h : tally.Holds expr) : 0 < expr.rank := by
  cases h with
  | product hrank hterm => omega
  | sum hoperator hrank hleft hterm =>
    rw [Expr.rank, hoperator]
    exact Nat.one_pos

theorem Holds.extend_sum (h : tally.Holds expr) (hoperator : operator.kind.rank = 1)
    (hrank : operand.rank = 3) (hoperand : operand.value = .ok number) :
    (Tally.mk tally.total operator.kind number.toInt).Holds (expr.extend operator operand) := by
  obtain ⟨value, hvalue, htotal⟩ := h.exists_value
  have hle : operator.kind.rank ≤ expr.rank := by
    rw [hoperator]
    exact h.rank_pos
  rw [Expr.extend_of_le operand hle, ← htotal]
  exact .sum hoperator (by omega) hvalue hoperand

/-- A product sign changes the term alone. -/
theorem Holds.extend_product (h : tally.Holds expr) (hoperator : operator.kind.rank = 2)
    (hoperand : operand.value = .ok number) :
    ∃ term : Int64, term.toInt = tally.term ∧
      match applyBinary operator term number with
      | .ok result => Holds { tally with term := result.toInt } (expr.extend operator operand)
      | .error fault => (expr.extend operator operand).value = .error fault := by
  cases h with
  | @product expr term hrank hterm =>
    have hle : operator.kind.rank ≤ expr.rank := by omega
    have hvalue : (Expr.binary operator expr operand).value = applyBinary operator term number :=
      Expr.value_binary_of_ok hterm hoperand
    refine ⟨term, rfl, ?_⟩
    rw [Expr.extend_of_le operand hle]
    cases hresult : applyBinary operator term number with
    | error fault => exact hvalue.trans hresult
    | ok result => exact .product (by rw [Expr.rank]; omega) (hvalue.trans hresult)
  | @sum head left right leftValue term hhead hrank hleft hterm =>
    have hlt : head.kind.rank < operator.kind.rank := by omega
    have hle : operator.kind.rank ≤ right.rank := by omega
    have hvalue : (Expr.binary operator right operand).value = applyBinary operator term number :=
      Expr.value_binary_of_ok hterm hoperand
    refine ⟨term, rfl, ?_⟩
    rw [Expr.extend_of_lt operand hlt, Expr.extend_of_le operand hle]
    cases hresult : applyBinary operator term number with
    | error fault => exact Expr.value_binary_of_right_error hleft (hvalue.trans hresult)
    | ok result => exact .sum hhead (by rw [Expr.rank]; omega) hleft (hvalue.trans hresult)

theorem Holds.value_extend_zero (h : tally.Holds expr) (hoperator : operator.kind = .slash)
    (hoperand : operand.value = .ok 0) :
    (expr.extend operator operand).value = .error ⟨.divisionByZero, operator.position⟩ := by
  have hrank := operator.kind.rank_eq_two_iff.mpr (Or.inr hoperator)
  obtain ⟨term, -, houtcome⟩ := h.extend_product hrank hoperand
  rw [applyBinary_slash hoperator, if_pos rfl] at houtcome
  exact houtcome

theorem Holds.step (h : tally.Holds expr) (hoperator : 0 < operator.kind.rank) (hrank : operand.rank = 3)
    (hoperand : operand.value = .ok number) (hzero : ¬ (operator.kind = .slash ∧ number = 0)) :
    (tally.step operator.kind number.toInt).Holds (expr.extend operator operand) := by
  have hle := operator.kind.rank_le_two
  -- a sum sign goes above the whole expression, a product sign below the last sum sign
  by_cases hone : operator.kind.rank = 1
  · have hstep : tally.step operator.kind number.toInt = ⟨tally.total, operator.kind, number.toInt⟩ := by
      rcases operator.kind.rank_eq_one_iff.mp hone with hkind | hkind <;> rw [hkind] <;> rfl
    rw [hstep]
    exact h.extend_sum hone hrank hoperand
  · have htwo : operator.kind.rank = 2 := by omega
    obtain ⟨term, hterm, houtcome⟩ := h.extend_product htwo hoperand
    rcases operator.kind.rank_eq_two_iff.mp htwo with hkind | hkind
    · rw [applyBinary_asterisk hkind] at houtcome
      rw [hkind, Tally.step, ← hterm, wrap, ← Int64.toInt_mul]
      exact houtcome
    · have hnumber : number ≠ 0 := by
        intro hnumber
        exact hzero ⟨hkind, hnumber⟩
      rw [applyBinary_slash hkind, if_neg hnumber] at houtcome
      rw [hkind, Tally.step, ← hterm, wrap, ← Int64.toInt_div]
      exact houtcome

/-- Going along joints, tally and expression come to the same end. -/
theorem Holds.map_toInt_value_extendAll (h : tally.Holds expr) (hwell : expr.WellGrouped) {joints : List Joint}
    (hdigits : ∀ joint ∈ joints, joint.operand.integer.IsDigits) :
    (Joint.extendAll expr joints).value.map Int64.toInt = tally.scan joints := by
  induction joints generalizing tally expr with
  | nil =>
    obtain ⟨value, hvalue, htotal⟩ := h.exists_value
    rw [Joint.extendAll_nil, hvalue, scan, ← htotal]
    rfl
  | cons joint joints ih =>
    have hgrown := Joint.wellGrouped_extend hwell joint
    have hnumber := Operand.map_toInt_value_expr (hdigits joint List.mem_cons_self)
    have hrest : ∀ other ∈ joints, other.operand.integer.IsDigits := by
      intro other hmem
      exact hdigits other (List.mem_cons_of_mem joint hmem)
    rw [Joint.extendAll_cons]
    cases hoperand : joint.operand.expr.value with
    | error fault =>
      -- the expression before the joint has a value, so the fault of the operand is the first one
      rw [hoperand] at hnumber
      obtain ⟨value, hvalue, -⟩ := h.exists_value
      have hfault : (Joint.extend expr joint).value = .error fault :=
        Expr.value_extend_of_operand_error hvalue hoperand joint.operator
      rw [Joint.value_extendAll_of_error hgrown hfault, scan_of_error hnumber.symm]
      rfl
    | ok number =>
      rw [hoperand] at hnumber
      by_cases hzero : joint.operator.kind = .slash ∧ number = 0
      · obtain ⟨hslash, rfl⟩ := hzero
        have hfault : (Joint.extend expr joint).value = .error ⟨.divisionByZero, joint.operator.position⟩ :=
          h.value_extend_zero hslash hoperand
        rw [Joint.value_extendAll_of_error hgrown hfault, scan_of_zero hslash hnumber.symm]
        rfl
      · have hnonzero : ¬ (joint.operator.kind = .slash ∧ number.toInt = 0) := by
          rwa [← Int64.toInt_zero, Int64.toInt_inj]
        rw [scan_of_ok hnumber.symm hnonzero]
        exact ih (h.step joint.rank_pos joint.operand.rank_expr hoperand hzero) hgrown hrest

end Holds

end Tally

/-- The expression of a row has the value that one pass along the row finds, or the first fault on the way. -/
theorem Row.map_toInt_value_expr {row : Row} (hfirst : row.first.integer.IsDigits)
    (hjoints : ∀ joint ∈ row.joints, joint.operand.integer.IsDigits) :
    row.expr.value.map Int64.toInt = row.scan := by
  have hnumber := Operand.map_toInt_value_expr hfirst
  rw [expr, scan, ← hnumber]
  cases hvalue : row.first.expr.value with
  | error fault =>
    rw [Joint.value_extendAll_of_error row.first.wellGrouped_expr hvalue]
    rfl
  | ok number =>
    have hrank : 1 < row.first.expr.rank := by
      rw [row.first.rank_expr]
      exact Nat.one_lt_succ_succ 1
    have hholds : (Tally.start number.toInt).Holds row.first.expr := .product hrank hvalue
    exact hholds.map_toInt_value_extendAll row.first.wellGrouped_expr hjoints

end Abacus
