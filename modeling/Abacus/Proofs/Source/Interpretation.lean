import Abacus.Proofs.Expr.Reading
import Abacus.Proofs.Expr.Tally
import Abacus.Proofs.Token.Stream
import Mathlib.Order.Basic

/-!
# The value of a source

`interpret` goes from a source to its tokens, from the tokens to an expression, and from the expression to its
value. None of this shows in the result. A source that can be read is a row of operands whose digits and operators
stand in it where the tokens say, and `interpret` gives what one pass along this row gives.
-/

namespace Abacus

namespace Token

/-- A token of a row as its kind is written. -/
def IsWritten (token : Token) : Prop :=
  match token.kind with
  | .integer => token.IsDigits
  | .plus => token.literal = "+"
  | .minus => token.literal = "-"
  | .asterisk => token.literal = "*"
  | .slash => token.literal = "/"
  | _ => False

/-- A token of a row that can be found in a source at its position. -/
def StandsIn (token : Token) (source : String) : Prop :=
  token.IsWritten ∧
    ∃ before after, source = before ++ token.literal ++ after ∧ token.position.toNat = before.utf8ByteSize

theorem isWritten_digits {c : Char} (hdigit : c.isDigit = true) (text : List Char) (offset : Nat) :
    ((Lexeme.digits c text).token offset).IsWritten := by
  have hcovered : (Lexeme.digits c text).literal.toList = c :: text.takeWhile Char.isDigit :=
    String.toList_ofList
  refine ⟨?_, ?_⟩
  · exact hcovered.trans_ne (List.cons_ne_nil _ _)
  · intro d hmem
    rw [show ((Lexeme.digits c text).token offset).literal.toList = _ from hcovered] at hmem
    rcases List.mem_cons.mp hmem with rfl | htail
    · exact hdigit
    · exact List.all_eq_true.mp List.all_takeWhile d htail

theorem isWritten_operator {c : Char} (hoperator : isOperatorChar c = true) (text : List Char) (offset : Nat) :
    ((Lexeme.read c text).token offset).IsWritten := by
  rw [Lexeme.read_of_isOperatorChar hoperator]
  rcases eq_of_isOperatorChar hoperator with rfl | rfl | rfl | rfl <;> rfl

/-- A token whose kind occurs in rows has read digits or an operator. -/
theorem isWritten_and_covered_of_kind {c : Char} {text : List Char}
    (hkind : (Lexeme.read c text).kind = .integer ∨ 0 < (Lexeme.read c text).kind.rank) (offset : Nat) :
    ((Lexeme.read c text).token offset).IsWritten ∧
      (Lexeme.read c text).literal = String.ofList (Lexeme.read c text).covered := by
  by_cases hdigit : c.isDigit = true
  · rw [Lexeme.read_of_isDigit hdigit]
    exact ⟨isWritten_digits hdigit text offset, rfl⟩
  · by_cases hoperator : isOperatorChar c = true
    · refine ⟨isWritten_operator hoperator text offset, ?_⟩
      rw [Lexeme.read_of_isOperatorChar hoperator]
      exact String.singleton_eq_ofList
    · obtain ⟨hrank, hinteger, -⟩ := Lexeme.kind_read_of_other hdigit hoperator text
      rcases hkind with hkind | hkind
      · exact absurd hkind hinteger
      · omega

section Tokenize

variable {source : String} {token : Token}

theorem exists_lexeme_of_mem (hmem : token ∈ tokenize source)
    (hkind : token.kind = .integer ∨ 0 < token.kind.rank) :
    ∃ left c right, source.toList = left ++ c :: right ∧
      token = (Lexeme.read c right).token (Text.byteLength left) := by
  rw [tokenize_eq_stream] at hmem
  rcases mem_stream hmem with rfl | ⟨left, c, right, hsource, -, htoken⟩
  · rcases hkind with hkind | hkind
    · exact absurd hkind TokenKind.noConfusion
    · exact absurd rfl (Parser.kind_ne_endOfInput hkind)
  · rw [Nat.zero_add] at htoken
    exact ⟨left, c, right, hsource, htoken⟩

theorem isWritten_of_mem (hmem : token ∈ tokenize source) (hkind : token.kind = .integer ∨ 0 < token.kind.rank) :
    token.IsWritten := by
  obtain ⟨left, c, right, -, rfl⟩ := exists_lexeme_of_mem hmem hkind
  exact (isWritten_and_covered_of_kind hkind _).1

theorem standsIn_of_mem (hlength : source.utf8ByteSize < 2 ^ 32) (hmem : token ∈ tokenize source)
    (hkind : token.kind = .integer ∨ 0 < token.kind.rank) : token.StandsIn source := by
  refine ⟨isWritten_of_mem hmem hkind, ?_⟩
  obtain ⟨left, c, right, hsource, rfl⟩ := exists_lexeme_of_mem hmem hkind
  have hliteral := (isWritten_and_covered_of_kind hkind 0).2
  have hsplit : source = String.ofList left ++ (Lexeme.read c right).literal ++
      String.ofList (Lexeme.read c right).rest := by
    rw [hliteral, String.append_assoc, ← String.ofList_append, Lexeme.covered_append_rest,
      ← String.ofList_append, ← hsource, String.ofList_toList]
  refine ⟨_, _, hsplit, ?_⟩
  have hsize : source.utf8ByteSize = Text.byteLength left + Text.byteLength (c :: right) := by
    rw [← Text.byteLength_toList, hsource, Text.byteLength_append]
  have hstart : Text.byteLength left < 2 ^ 32 := by omega
  rw [position_token, ← Text.byteLength_ofList]
  exact toNat_position_of_le (Nat.le_pred_of_lt hstart)

end Tokenize

end Token

theorem Row.mem_tokenize {row : Row} {source : String} {rest : List Token}
    (h : tokenize source = row.tokens ++ rest) {token : Token} (hmem : token ∈ row.tokens) :
    token ∈ tokenize source := by
  rw [h]
  exact List.mem_append_left _ hmem

theorem interpret_of_parse {source : String} {expr : Expr} (h : Expr.parse (tokenize source) = .ok expr) :
    (interpret source).map (fun evaluation => evaluation.value) = expr.value := by
  rw [interpret, h, ← expr.evaluate_eq_value]
  simp only [Expr.evaluation]
  cases expr.evaluate <;> rfl

/-- The tokens of a source that can be read are those of its expression, which is well grouped. -/
theorem Expr.tokenize_of_parse {source : String} {expr : Expr} (h : parse (tokenize source) = .ok expr) :
    expr.WellGrouped ∧ tokenize source = expr.tokens ++ [.endOfInput (.ofOffset source.utf8ByteSize)] := by
  obtain ⟨tokens, htokenize, htokens⟩ := exists_tokenize_eq source
  have hatEnd : Parser.AtEnd [.endOfInput (.ofOffset source.utf8ByteSize)] := by
    intro token hmem
    obtain rfl := Option.mem_some.mp hmem
    rfl
  rw [htokenize] at h ⊢
  obtain ⟨hwell, rfl⟩ := (parse_append_eq_ok_iff htokens hatEnd expr).mp h
  exact ⟨hwell, rfl⟩

/-- A source that can be read has the tokens of a row, and one pass along the row works it out. -/
theorem exists_row_of_source {source : String} {expr : Expr} (h : Expr.parse (tokenize source) = .ok expr) :
    ∃ row : Row, tokenize source = row.tokens ++ [.endOfInput (.ofOffset source.utf8ByteSize)] ∧
      (interpret source).map (fun evaluation => evaluation.value.toInt) = row.scan := by
  obtain ⟨hwell, htokenize⟩ := Expr.tokenize_of_parse h
  obtain ⟨row, rfl⟩ := Expr.exists_row hwell
  rw [row.tokens_expr] at htokenize
  have hdigits : ∀ token ∈ row.tokens, token.kind = .integer → token.IsDigits := by
    intro token hmem hinteger
    have hwritten := Token.isWritten_of_mem (Row.mem_tokenize htokenize hmem) (Or.inl hinteger)
    rw [Token.IsWritten, hinteger] at hwritten
    exact hwritten
  have hjoints : ∀ joint ∈ row.joints, joint.operand.integer.IsDigits := by
    intro joint hmem
    exact hdigits _ (Row.joint_mem hmem) joint.operand.kind_integer
  refine ⟨row, htokenize, ?_⟩
  calc (interpret source).map (fun evaluation => evaluation.value.toInt)
      = ((interpret source).map fun evaluation => evaluation.value).map Int64.toInt := by
        cases interpret source <;> rfl
    _ = row.expr.value.map Int64.toInt := by rw [interpret_of_parse h]
    _ = row.scan :=
        Row.map_toInt_value_expr (hdigits _ row.first_mem row.first.kind_integer) hjoints

theorem interpret_ne_unknownOperator (source literal : String) (position : Position) :
    interpret source ≠ .error ⟨.unknownOperator literal, position⟩ := by
  intro hinterpret
  cases hparse : Expr.parse (tokenize source) with
  | error fault =>
    obtain ⟨token, -, hunexpected⟩ := Expr.exists_offender_of_parse hparse
    rw [interpret, hparse] at hinterpret
    obtain rfl := Except.error.inj hinterpret
    unfold Token.unexpected at hunexpected
    split at hunexpected <;> simp at hunexpected
  | ok expr =>
    obtain ⟨row, -, hscan⟩ := exists_row_of_source hparse
    rw [hinterpret] at hscan
    rcases Row.cause_of_scan hscan.symm with hcause | ⟨digits, hcause⟩ <;> simp at hcause

/-- **One pass along the source.** A source that can be read is a row of operands, and `interpret` gives what one
pass along the row gives: the sum of products of its numbers, or the first fault met, an integer too large or a
division by zero. A fault of an unknown operator never comes up. -/
theorem interpret_eq_scan (source : String) (hlength : source.utf8ByteSize < 2 ^ 32) :
    (∀ expr, Expr.parse (tokenize source) = .ok expr →
      ∃ row : Row, tokenize source = row.tokens ++ [.endOfInput (.ofOffset source.utf8ByteSize)] ∧
        (∀ token ∈ row.tokens, token.StandsIn source) ∧
        (interpret source).map (fun evaluation => evaluation.value.toInt) = row.scan) ∧
      ∀ literal position, interpret source ≠ .error ⟨.unknownOperator literal, position⟩ := by
  refine ⟨?_, interpret_ne_unknownOperator source⟩
  intro expr hparse
  obtain ⟨row, htokenize, hscan⟩ := exists_row_of_source hparse
  refine ⟨row, htokenize, ?_, hscan⟩
  intro token hmem
  exact Token.standsIn_of_mem hlength (Row.mem_tokenize htokenize hmem) (Row.kind_of_mem hmem)

/-- The pass along `7-2*-3` comes to 13. -/
theorem interpret_eq_scan_difference :
    "7-2*-3".utf8ByteSize < 2 ^ 32 ∧
      ∃ row : Row, tokenize "7-2*-3" = row.tokens ++ [.endOfInput (.ofOffset 6)] ∧ row.scan = .ok 13 := by
  have hlength : "7-2*-3".utf8ByteSize < 2 ^ 32 := by decide
  have hparse : Expr.parse (tokenize "7-2*-3") =
      .ok (.binary ⟨.minus, "-", .ofOffset 1 1⟩ (.literal ⟨.integer, "7", .ofOffset 0 1⟩)
        (.binary ⟨.asterisk, "*", .ofOffset 3 1⟩ (.literal ⟨.integer, "2", .ofOffset 2 1⟩)
          (.chain ⟨.integer, "3", .ofOffset 5 1⟩ [⟨.minus, "-", .ofOffset 4 1⟩]))) := by decide +kernel
  have hvalue : (interpret "7-2*-3").map (fun evaluation => evaluation.value.toInt) = .ok 13 := by decide +kernel
  obtain ⟨row, htokenize, -, hscan⟩ := (interpret_eq_scan "7-2*-3" hlength).1 _ hparse
  exact ⟨hlength, row, htokenize, hscan.symm.trans hvalue⟩

end Abacus
