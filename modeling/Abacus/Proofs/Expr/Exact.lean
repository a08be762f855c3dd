import Abacus.Proofs.Expr.Tally
import Abacus.Proofs.Numeral.Writing
import Abacus.Proofs.Program.Agreement
import Mathlib.Data.Int.ModEq

/-!
# Wrapping around and exact values

Sums, differences, products and negation wrap around at 64 bits, which is arithmetic modulo `2 ^ 64`: whatever
overflows on the way, the result has the right residue. A truncated quotient does not depend on residues alone, so its
operands have to be the exact ones. Under that condition an expression is worked out to the wrapped form of its exact
value, one operator after the other; that the quotient of the least value and `-1` does not fit is one more overflow.
-/

namespace Abacus

/-- The numbers that 64 bits hold. -/
def Fits (number : Int) : Prop :=
  -2 ^ 63 ≤ number ∧ number ≤ 2 ^ 63 - 1

instance (number : Int) : Decidable (Fits number) :=
  inferInstanceAs (Decidable (_ ∧ _))

/-- The number that the literal of a token writes, or zero if it writes none. -/
def Token.number (token : Token) : Int :=
  (Numeral.number? token.literal.toList).getD 0

theorem Token.value_eq_ofInt_number {token : Token} (h : ∃ value, token.value = .ok value) :
    token.value = .ok (Int64.ofInt token.number) := by
  obtain ⟨value, hvalue⟩ := h
  obtain ⟨number, hwrites, -, -, htoInt⟩ := Numeral.value?_eq_some_iff.mp (value_eq_ok_iff.mp hvalue)
  rw [hvalue, Token.number, Numeral.number?_eq_some_iff.mpr hwrites, Option.getD_some, ← htoInt, Int64.ofInt_toInt]

/-- The 64-bit form of a number is the one number that fits and has the same residue. -/
theorem fits_and_modEq_iff (number exact : Int) :
    Fits number ∧ number ≡ exact [ZMOD 2 ^ 64] ↔ number = (Int64.ofInt exact).toInt := by
  rw [Int64.toInt_ofInt, Int.ModEq]
  constructor
  · rintro ⟨⟨hlow, hhigh⟩, hresidue⟩
    calc number = number.bmod (2 ^ 64) := (Int.bmod_eq_of_le (by omega) (by omega)).symm
      _ = (number % 2 ^ 64).bmod (2 ^ 64) := (Int.emod_bmod number (2 ^ 64)).symm
      _ = (exact % 2 ^ 64).bmod (2 ^ 64) := by rw [hresidue]
      _ = exact.bmod (2 ^ 64) := Int.emod_bmod exact (2 ^ 64)
  · rintro rfl
    refine ⟨⟨?_, ?_⟩, Int.bmod_emod⟩
    · exact Int.le_bmod (by decide)
    · exact Int.le_sub_one_of_lt (Int.bmod_lt (by decide))

namespace Expr

/-- Every literal has a value, and signs and operators are those of arithmetic. -/
def IsArithmetic : Expr → Prop
  | literal token => ∃ value, token.value = .ok value
  | chain token signs => (∃ value, token.value = .ok value) ∧ ∀ sign ∈ signs, sign.kind ∈ [.plus, .minus]
  | binary operator left right =>
    operator.kind ∈ [.plus, .minus, .asterisk, .slash] ∧ left.IsArithmetic ∧ right.IsArithmetic

/-- The value among all integers, with quotients cut off toward zero. -/
def exact : Expr → Int
  | literal token => token.number
  | chain token signs => (-1) ^ (signs.countP fun sign => decide (sign.kind = .minus)) * token.number
  | binary operator left right =>
    match operator.kind with
    | .plus => left.exact + right.exact
    | .minus => left.exact - right.exact
    | .asterisk => left.exact * right.exact
    | .slash => left.exact.tdiv right.exact
    | _ => 0

/-- No quotient has an operand that overflows, nor a divisor that is zero. -/
def QuotientsFit (expr : Expr) : Prop :=
  ∀ operator dividend divisor, binary operator dividend divisor ∈ expr.nodes → operator.kind = .slash →
    Fits dividend.exact ∧ Fits divisor.exact ∧ divisor.exact ≠ 0

theorem quotientsFit_left {operator : Token} {left right : Expr} (h : (binary operator left right).QuotientsFit) :
    left.QuotientsFit := by
  intro other dividend divisor hmem
  apply h
  simp [nodes, hmem]

theorem quotientsFit_right {operator : Token} {left right : Expr} (h : (binary operator left right).QuotientsFit) :
    right.QuotientsFit := by
  intro other dividend divisor hmem
  apply h
  simp [nodes, hmem]

theorem applyBinary_ofInt_slash {operator : Token} (h : operator.kind = .slash) {dividend divisor : Int}
    (hdividend : Fits dividend) (hdivisor : Fits divisor) (hzero : divisor ≠ 0) :
    applyBinary operator (.ofInt dividend) (.ofInt divisor) = .ok (.ofInt (dividend.tdiv divisor)) := by
  have hnonzero : Int64.ofInt divisor ≠ 0 := by
    intro heq
    have htoInt := congrArg Int64.toInt heq
    rw [Int64.toInt_ofInt_of_le hdivisor.1 (by have := hdivisor.2; omega), Int64.toInt_zero] at htoInt
    exact hzero htoInt
  rw [applyBinary_slash h, if_neg hnonzero, Int64.ofInt_tdiv]
  · exact hdividend.1
  · exact hdividend.2
  · exact hdivisor.1
  · exact hdivisor.2

/-- An expression is worked out to the wrapped form of its exact value. -/
theorem value_eq_ofInt_exact {expr : Expr} (h : expr.IsArithmetic) (hquotients : expr.QuotientsFit) :
    expr.value = .ok (Int64.ofInt expr.exact) := by
  induction expr with
  | literal token => exact Token.value_eq_ofInt_number h
  | chain token signs =>
    obtain ⟨htoken, hsigns⟩ := h
    have hisSign : ∀ sign ∈ signs.reverse, sign.isSign = true := by
      intro sign hmem
      have hkind := hsigns sign (List.mem_reverse.mp hmem)
      simp only [List.mem_cons, List.not_mem_nil, or_false] at hkind
      rcases hkind with hkind | hkind <;> rw [Token.isSign, hkind] <;> rfl
    rw [value, Token.value_eq_ofInt_number htoken, Except.bind, applySigns_of_isSign hisSign, List.countP_reverse,
      exact]
    by_cases hodd : (signs.countP fun sign => decide (sign.kind = .minus)) % 2 = 1
    · rw [if_pos hodd, (Nat.odd_iff.mpr hodd).neg_one_pow, Int.neg_one_mul, Int64.ofInt_neg]
    · rw [if_neg hodd, (Nat.not_odd_iff_even.mp (mt Nat.odd_iff.mp hodd)).neg_one_pow, Int.one_mul]
  | binary operator left right ihleft ihright =>
    obtain ⟨hoperator, hleft, hright⟩ := h
    have hleftValue := ihleft hleft (quotientsFit_left hquotients)
    have hrightValue := ihright hright (quotientsFit_right hquotients)
    rw [value_binary_of_ok hleftValue hrightValue, exact]
    simp only [List.mem_cons, List.not_mem_nil, or_false] at hoperator
    rcases hoperator with hkind | hkind | hkind | hkind
    · have hrank : operator.kind.rank = 1 := operator.kind.rank_eq_one_iff.mpr (Or.inl hkind)
      rw [applyBinary_of_rank_one hrank, hkind, if_neg (by decide), Int64.ofInt_add]
    · have hrank : operator.kind.rank = 1 := operator.kind.rank_eq_one_iff.mpr (Or.inr hkind)
      rw [applyBinary_of_rank_one hrank, hkind, if_pos rfl, Int64.ofInt_sub]
    · rw [applyBinary_asterisk hkind, hkind, Int64.ofInt_mul]
    · obtain ⟨hdividend, hdivisor, hzero⟩ := hquotients operator left right (by simp [nodes]) hkind
      rw [applyBinary_ofInt_slash hkind hdividend hdivisor hzero, hkind]

/-- **Wrapping around is arithmetic modulo `2 ^ 64`.** If no quotient has an operand that overflows or a divisor that is
zero, an expression of arithmetic has a value, which is the one number that fits and has the residue of the exact value;
it is the exact value if that one fits. Without quotients there is always such a value. -/
theorem evaluate_eq_residue_of_exact (expr : Expr) (h : expr.IsArithmetic) :
    (expr.QuotientsFit →
      ∃ value, expr.evaluate = .ok value ∧
        (∀ number, Fits number ∧ number ≡ expr.exact [ZMOD 2 ^ 64] ↔ number = value.toInt) ∧
        (Fits expr.exact → value.toInt = expr.exact)) ∧
    ((∀ operator dividend divisor, binary operator dividend divisor ∈ expr.nodes → operator.kind ≠ .slash) →
      ∃ value, expr.evaluate = .ok value ∧ value.toInt ≡ expr.exact [ZMOD 2 ^ 64]) := by
  constructor
  · intro hquotients
    refine ⟨Int64.ofInt expr.exact, ?_, ?_, ?_⟩
    · rw [evaluate_eq_value, value_eq_ofInt_exact h hquotients]
    · intro number
      exact fits_and_modEq_iff number expr.exact
    · intro hfits
      exact ((fits_and_modEq_iff _ _).mp ⟨hfits, rfl⟩).symm
  · intro hdivisionFree
    have hquotients : expr.QuotientsFit := by
      intro operator dividend divisor hmem hslash
      exact absurd hslash (hdivisionFree operator dividend divisor hmem)
    refine ⟨Int64.ofInt expr.exact, ?_, ?_⟩
    · rw [evaluate_eq_value, value_eq_ofInt_exact h hquotients]
    · exact ((fits_and_modEq_iff _ _).mpr rfl).2

/-- The least value over `-1`. -/
def leastQuotient : Expr :=
  binary ⟨.slash, "/", .ofOffset 21 1⟩ (literal ⟨.integer, "-9223372036854775808", .ofOffset 0 20⟩)
    (chain ⟨.integer, "1", .ofOffset 24 1⟩ [⟨.minus, "-", .ofOffset 23 1⟩])

/-- The exact quotient of the least value and `-1` is the one that does not fit, and wraps around to the least value. -/
theorem evaluate_eq_residue_of_leastQuotient :
    leastQuotient.IsArithmetic ∧ leastQuotient.QuotientsFit ∧ leastQuotient.exact = 2 ^ 63 ∧
      leastQuotient.evaluate = .ok Int64.minValue := by
  have harithmetic : leastQuotient.IsArithmetic :=
    ⟨by decide, ⟨Int64.minValue, by decide +kernel⟩, ⟨1, by decide +kernel⟩, by decide⟩
  have hquotients : leastQuotient.QuotientsFit := by
    intro operator dividend divisor hmem _
    have hnode : binary operator dividend divisor = leastQuotient := by
      simpa [leastQuotient, nodes] using hmem
    obtain ⟨-, rfl, rfl⟩ := Expr.binary.inj hnode
    exact ⟨by decide, by decide, by decide⟩
  have hexact : leastQuotient.exact = 2 ^ 63 := by decide
  obtain ⟨value, hvalue, hunique, -⟩ := (evaluate_eq_residue_of_exact leastQuotient harithmetic).1 hquotients
  have hleast : Int64.minValue.toInt = value.toInt := by
    rw [← hunique, hexact]
    exact ⟨by decide, by decide⟩
  refine ⟨harithmetic, hquotients, hexact, ?_⟩
  rw [hvalue, Int64.toInt_inj.mp hleast]

end Expr

end Abacus
