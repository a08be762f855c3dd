import Abacus.Proofs.Expr.Row
import Abacus.Token.Lexeme

/-!
# Lexemes of a row

The first character of a lexeme tells what it is to a row: a digit starts an integer, one of four characters is an
operator by itself, and any other character starts a token that no row has. These three cases are all that the
rest of the theory needs to know of `Lexeme.read`.
-/

namespace Abacus

/-! ### Classes of characters -/

def isSignChar (c : Char) : Bool :=
  c == '+' || c == '-'

def isOperatorChar (c : Char) : Bool :=
  c == '+' || c == '-' || c == '*' || c == '/'

theorem isGap_iff_mem {c : Char} : isGap c = true ↔ c ∈ [' ', '\t', '\n', '\r'] := by
  simp [isGap, or_assoc]

theorem eq_of_isGap {c : Char} (h : isGap c = true) : c = ' ' ∨ c = '\t' ∨ c = '\n' ∨ c = '\r' := by
  simpa using isGap_iff_mem.mp h

theorem isDigit_eq_false_of_isGap {c : Char} (h : isGap c = true) : c.isDigit = false := by
  rcases eq_of_isGap h with rfl | rfl | rfl | rfl <;> rfl

theorem eq_of_isOperatorChar {c : Char} (h : isOperatorChar c = true) :
    c = '+' ∨ c = '-' ∨ c = '*' ∨ c = '/' := by
  simpa [isOperatorChar, or_assoc] using h

theorem isDigit_eq_false_of_isOperatorChar {c : Char} (h : isOperatorChar c = true) : c.isDigit = false := by
  rcases eq_of_isOperatorChar h with rfl | rfl | rfl | rfl <;> rfl

theorem isGap_eq_false_of_isOperatorChar {c : Char} (h : isOperatorChar c = true) : isGap c = false := by
  rcases eq_of_isOperatorChar h with rfl | rfl | rfl | rfl <;> rfl

theorem isOperatorChar_of_isSignChar {c : Char} (h : isSignChar c = true) : isOperatorChar c = true := by
  simp only [isSignChar, Bool.or_eq_true, beq_iff_eq] at h
  rcases h with rfl | rfl <;> rfl

theorem toNat_of_isDigit {c : Char} (h : c.isDigit = true) : 48 ≤ c.toNat ∧ c.toNat ≤ 57 := by
  simp only [Char.isDigit, Bool.and_eq_true, decide_eq_true_eq, ge_iff_le, UInt32.le_iff_toNat_le] at h
  exact h

theorem isWordStart_eq_false_of_isDigit {c : Char} (h : c.isDigit = true) : isWordStart c = false := by
  obtain ⟨hlow, hhigh⟩ := toNat_of_isDigit h
  rw [Bool.eq_false_iff]
  intro hstart
  rcases (Bool.or_eq_true _ _).mp hstart with halpha | hunderscore
  · rcases (Bool.or_eq_true _ _).mp halpha with hupper | hlower
    · have hbounds : 65 ≤ c.toNat ∧ c.toNat ≤ 90 := of_decide_eq_true hupper
      omega
    · have hbound : 97 ≤ c.toNat := of_decide_eq_true ((Bool.and_eq_true _ _).mp hlower).1
      omega
  · rw [beq_iff_eq.mp hunderscore] at h
    exact absurd h (by decide)

/-! ### Lexemes by their first character -/

namespace Lexeme

theorem read_of_isDigit {c : Char} (h : c.isDigit = true) (text : List Char) : read c text = digits c text := by
  have hword : ¬ isWordStart c = true := by
    rw [isWordStart_eq_false_of_isDigit h]
    exact Bool.false_ne_true
  rw [read, if_neg hword, if_pos h]

theorem read_of_isOperatorChar {c : Char} (h : isOperatorChar c = true) (text : List Char) :
    read c text = single ((TokenKind.ofPunctuation? c).getD .illegal) c text := by
  rcases eq_of_isOperatorChar h with rfl | rfl | rfl | rfl <;> rfl

theorem kind_quoted (text : List Char) : (quoted text).kind = .quotedText := by
  rw [quoted]
  split <;> rfl

/-- A lexeme that starts with neither a digit nor an operator is no part of a row. -/
theorem kind_read_of_other {c : Char} (hdigit : ¬ c.isDigit = true) (hoperator : ¬ isOperatorChar c = true)
    (text : List Char) :
    (read c text).kind.rank = 0 ∧ (read c text).kind ≠ .integer ∧ (read c text).kind ≠ .endOfInput := by
  have hword : ∀ word : String, (TokenKind.ofWord word).rank = 0 ∧ TokenKind.ofWord word ≠ .integer ∧
      TokenKind.ofWord word ≠ .endOfInput := by
    intro word
    unfold TokenKind.ofWord TokenKind.reserved?
    split <;> decide
  have hsingle : ((TokenKind.ofPunctuation? c).getD .illegal).rank = 0 ∧
      (TokenKind.ofPunctuation? c).getD .illegal ≠ .integer ∧
      (TokenKind.ofPunctuation? c).getD .illegal ≠ .endOfInput := by
    unfold TokenKind.ofPunctuation?
    split
    case h_11 | h_12 | h_13 | h_14 => exact absurd rfl hoperator
    all_goals decide
  unfold read
  split
  · exact hword _
  · split
    · rename_i hquote
      rw [kind_quoted]
      decide
    · exact hsingle

theorem kind_read_of_isOperatorChar {c : Char} (h : isOperatorChar c = true) (text : List Char) :
    0 < (read c text).kind.rank ∧ (read c text).kind.isSign = isSignChar c ∧ (read c text).rest = text := by
  rw [read_of_isOperatorChar h]
  rcases eq_of_isOperatorChar h with rfl | rfl | rfl | rfl <;> exact ⟨Nat.succ_pos _, rfl, rfl⟩

theorem kind_read_ne_endOfInput (c : Char) (text : List Char) : (read c text).kind ≠ .endOfInput := by
  by_cases hdigit : c.isDigit = true
  · rw [read_of_isDigit hdigit]
    exact TokenKind.noConfusion
  · by_cases hoperator : isOperatorChar c = true
    · intro hend
      have hrank := (kind_read_of_isOperatorChar hoperator text).1
      rw [hend] at hrank
      exact absurd hrank (by decide)
    · exact (kind_read_of_other hdigit hoperator text).2.2

theorem size_pos (first : Char) (text : List Char) : 0 < (read first text).size := by
  unfold size
  cases hcovered : (read first text).covered with
  | nil => exact absurd hcovered (covered_ne_nil first text)
  | cons c covered =>
    have := c.utf8Size_pos
    rw [Text.byteLength_cons]
    omega

theorem size_add_byteLength_rest (first : Char) (text : List Char) :
    (read first text).size + Text.byteLength (read first text).rest = Text.byteLength (first :: text) := by
  rw [size, ← Text.byteLength_append, covered_append_rest]

end Lexeme

end Abacus
