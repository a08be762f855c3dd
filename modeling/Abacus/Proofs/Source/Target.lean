import Abacus.Proofs.Source.Acceptance
import Abacus.Proofs.Source.Interpretation
import Abacus.Proofs.Token.Tiling

/-!
# What a fault is about

A source that cannot be worked out has a fault at one of its tokens or at its end. In front of that place it is read
character by character as a row, and the characters of a row take one byte each. Bytes and characters in front of a
fault therefore count the same, though anything may follow it.
-/

namespace Abacus

/-! ### Faults of a row -/

theorem Operand.position_of_number {operand : Operand} {fault : Fault} (h : operand.number = .error fault) :
    fault.position = operand.integer.position := by
  unfold number at h
  by_cases hlarge : 2 ^ 63 ≤ operand.integer.magnitude
  · rw [if_pos hlarge] at h
    obtain rfl := Except.error.inj h
    rfl
  · rw [if_neg hlarge] at h
    split at h <;> simp at h

theorem Operand.integer_mem (operand : Operand) : operand.integer ∈ operand.tokens := by
  rw [tokens]
  exact List.mem_append_right _ List.mem_cons_self

theorem Tally.exists_position_of_scan {tally : Tally} {joints : List Joint} {fault : Fault}
    (h : tally.scan joints = .error fault) :
    ∃ token ∈ joints.flatMap Joint.tokens, fault.position = token.position := by
  induction joints generalizing tally with
  | nil => simp [scan] at h
  | cons joint joints ih =>
    rw [List.flatMap_cons]
    cases hnumber : joint.operand.number with
    | error other =>
      rw [scan_of_error hnumber] at h
      obtain rfl := Except.error.inj h
      refine ⟨joint.operand.integer, ?_, Operand.position_of_number hnumber⟩
      apply List.mem_append_left
      exact List.mem_cons_of_mem _ joint.operand.integer_mem
    | ok number =>
      by_cases hzero : joint.operator.kind = .slash ∧ number = 0
      · obtain ⟨hslash, rfl⟩ := hzero
        rw [scan_of_zero hslash hnumber] at h
        obtain rfl := Except.error.inj h
        exact ⟨joint.operator, List.mem_append_left _ List.mem_cons_self, rfl⟩
      · rw [scan_of_ok hnumber hzero] at h
        obtain ⟨token, hmem, hposition⟩ := ih h
        exact ⟨token, List.mem_append_right _ hmem, hposition⟩

theorem Row.exists_position_of_scan {row : Row} {fault : Fault} (h : row.scan = .error fault) :
    ∃ token ∈ row.tokens, fault.position = token.position := by
  unfold scan at h
  cases hnumber : row.first.number with
  | error other =>
    rw [hnumber] at h
    obtain rfl := Except.error.inj h
    exact ⟨row.first.integer, row.first_mem, Operand.position_of_number hnumber⟩
  | ok number =>
    rw [hnumber] at h
    obtain ⟨token, hmem, hposition⟩ := Tally.exists_position_of_scan h
    exact ⟨token, List.mem_append_right _ hmem, hposition⟩

/-! ### Characters of one byte -/

namespace Text

def IsNarrow (text : List Char) : Prop :=
  ∀ c ∈ text, c.utf8Size = 1

theorem byteLength_of_isNarrow {text : List Char} (h : IsNarrow text) : byteLength text = text.length := by
  induction text with
  | nil => rfl
  | cons c text ih =>
    have hc : c.utf8Size = 1 := h c List.mem_cons_self
    rw [byteLength_cons, List.length_cons, hc, ih fun d hmem => h d (List.mem_cons_of_mem c hmem), Nat.add_comm]

theorem eq_of_byteLength_eq {left right front back : List Char} (h : left ++ right = front ++ back)
    (heq : byteLength left = byteLength front) : left = front ∧ right = back := by
  obtain ⟨more, rfl, rfl⟩ := exists_append_of_byteLength_le h (Nat.le_of_eq heq)
  rw [byteLength_append] at heq
  obtain rfl := byteLength_eq_zero (show byteLength more = 0 by omega)
  exact ⟨(List.append_nil left).symm, rfl⟩

end Text

namespace Stage

/-- The characters that may stand in a row. -/
theorem class_of_next? {stage next : Stage} {c : Char} (h : stage.next? c = some next) :
    isGap c = true ∨ c.isDigit = true ∨ isOperatorChar c = true := by
  by_contra hnone
  obtain ⟨hgap, hdigit, hoperator⟩ : ¬ isGap c = true ∧ ¬ c.isDigit = true ∧ ¬ isOperatorChar c = true := by
    simpa only [not_or] using hnone
  have hsign : ¬ isSignChar c = true := fun hsign => hoperator (isOperatorChar_of_isSignChar hsign)
  cases stage <;> simp [next?, hgap, hdigit, hoperator, hsign] at h

theorem class_of_read {stage last : Stage} {text : List Char} (h : stage.read text = (last, [])) :
    ∀ c ∈ text, isGap c = true ∨ c.isDigit = true ∨ isOperatorChar c = true := by
  induction text generalizing stage with
  | nil =>
    intro c hmem
    simp at hmem
  | cons c text ih =>
    cases hnext : stage.next? c with
    | none => simp [read_cons_of_none hnext] at h
    | some next =>
      rw [read_cons_of_some hnext] at h
      intro d hmem
      rcases List.mem_cons.mp hmem with rfl | htail
      · exact class_of_next? hnext
      · exact ih h d htail

theorem isNarrow_of_read {stage last : Stage} {text : List Char} (h : stage.read text = (last, [])) :
    Text.IsNarrow text := by
  intro c hmem
  rcases class_of_read h c hmem with hgap | hdigit | hoperator
  · rcases eq_of_isGap hgap with rfl | rfl | rfl | rfl <;> rfl
  · obtain ⟨-, hhigh⟩ := toNat_of_isDigit hdigit
    apply Char.utf8Size_eq_one_iff.mpr
    exact UInt32.le_iff_toNat_le.mpr (Nat.le_trans hhigh (by decide))
  · rcases eq_of_isOperatorChar hoperator with rfl | rfl | rfl | rfl <;> rfl

end Stage

/-! ### Targets -/

/-- A token in a source where a character that is no gap starts it, behind characters of one byte only. -/
structure Token.IsTarget (token : Token) (source : String) (before : List Char) (first : Char) (rest : List Char) :
    Prop where
  mem_tokenize : token ∈ tokenize source
  source_eq : source.toList = before ++ first :: rest
  isGap_first : isGap first = false
  eq_read : token = (Lexeme.read first rest).token (Text.byteLength before)
  isNarrow : Text.IsNarrow before

section Fault

variable {source : String} {fault : Fault}

theorem Token.exists_read_of_position_lt {token : Token} (hlength : source.utf8ByteSize < 2 ^ 32)
    (hmem : token ∈ tokenize source) (hposition : token.position.toNat < source.utf8ByteSize) :
    ∃ before first rest, source.toList = before ++ first :: rest ∧ isGap first = false ∧
      token = (Lexeme.read first rest).token (Text.byteLength before) := by
  rw [Token.tokenize_eq_stream] at hmem
  rcases Token.mem_stream hmem with rfl | ⟨before, first, rest, hsource, hgap, htoken⟩
  · have hend : (Position.ofOffset source.utf8ByteSize).toNat = source.utf8ByteSize :=
      Token.toNat_position_of_le (Nat.le_pred_of_lt hlength)
    rw [Nat.zero_add, Text.byteLength_toList] at hposition
    exact absurd hposition (by rw [Token.position, Token.endOfInput, Span.empty, hend]; exact Nat.lt_irrefl _)
  · rw [Nat.zero_add] at htoken
    exact ⟨before, first, rest, hsource, hgap, htoken⟩

theorem Token.eq_of_mem_tokenize (hlength : source.utf8ByteSize < 2 ^ 32) {left right : Token}
    (hleft : left ∈ tokenize source) (hright : right ∈ tokenize source) (h : left.position = right.position) :
    left = right := by
  have hfits : 0 + Text.byteLength source.toList ≤ Position.last := by
    rw [Nat.zero_add, Text.byteLength_toList]
    exact Nat.le_pred_of_lt hlength
  rw [Token.tokenize_eq_stream] at hleft hright
  exact Token.eq_of_position_eq hfits hleft hright h

theorem target_of_parse (hlength : source.utf8ByteSize < 2 ^ 32)
    (h : Expr.parse (tokenize source) = .error fault) :
    (fault = ⟨.unexpectedEndOfInput, .ofOffset source.utf8ByteSize⟩ ∧ Text.IsNarrow source.toList) ∨
      ∃ (token : Token) (before : List Char) (first : Char) (rest : List Char),
        fault = ⟨.illegalToken token.literal, token.position⟩ ∧ token.IsTarget source before first rest := by
  obtain ⟨before, hsplit, hbefore, -⟩ := Stage.exists_read_split .operand source.toList
  rcases hread : Stage.operand.read source.toList with ⟨stage, rest⟩
  rw [hread] at hsplit hbefore
  have hnarrow := Stage.isNarrow_of_read hbefore
  cases rest with
  | nil =>
    rw [List.append_nil] at hsplit
    exact Or.inl ⟨fault_of_read_eq_nil h hread, hsplit ▸ hnarrow⟩
  | cons c rest =>
    obtain ⟨token, hmem, hposition, hfault⟩ := fault_of_read_eq_cons h hread
    have hsize : source.utf8ByteSize = Text.byteLength before + Text.byteLength (c :: rest) := by
      rw [← Text.byteLength_append, ← hsplit, Text.byteLength_toList]
    have hstart : token.position.toNat = Text.byteLength before := by
      have hbound : Text.byteLength before < 2 ^ 32 := by omega
      rw [hposition, hsize, Nat.add_sub_cancel]
      exact Token.toNat_position_of_le (Nat.le_pred_of_lt hbound)
    have hpos := c.utf8Size_pos
    rw [Text.byteLength_cons] at hsize
    obtain ⟨left, first, right, hsource, hgap, htoken⟩ :=
      Token.exists_read_of_position_lt hlength hmem (by omega)
    have hleft : Text.byteLength left = Text.byteLength before := by
      have hbound : Text.byteLength left < 2 ^ 32 := by
        rw [← Text.byteLength_toList, hsource, Text.byteLength_append] at hlength
        omega
      rw [← hstart, htoken]
      exact (Token.toNat_position_of_le (Nat.le_pred_of_lt hbound)).symm
    obtain ⟨rfl, -⟩ := Text.eq_of_byteLength_eq (hsource.symm.trans hsplit) hleft
    exact Or.inr ⟨token, left, first, right, hfault, hmem, hsource, hgap, htoken, hnarrow⟩

/-- A source that cannot be worked out is at fault at its end or at one of its tokens. -/
theorem target_of_interpret (hlength : source.utf8ByteSize < 2 ^ 32) (h : interpret source = .error fault) :
    (fault = ⟨.unexpectedEndOfInput, .ofOffset source.utf8ByteSize⟩ ∧ Text.IsNarrow source.toList) ∨
      fault.cause ≠ .unexpectedEndOfInput ∧
        ∃ (token : Token) (before : List Char) (first : Char) (rest : List Char),
          token.position = fault.position ∧ token.IsTarget source before first rest := by
  cases hparse : Expr.parse (tokenize source) with
  | error other =>
    rw [interpret, hparse] at h
    obtain rfl := Except.error.inj h
    rcases target_of_parse hlength hparse with hend | ⟨token, before, first, rest, rfl, htarget⟩
    · exact Or.inl hend
    · exact Or.inr ⟨by simp, token, before, first, rest, rfl, htarget⟩
  | ok expr =>
    obtain ⟨row, htokenize, hscan⟩ := exists_row_of_source hparse
    rw [h] at hscan
    have hcause : fault.cause ≠ .unexpectedEndOfInput := by
      rcases Row.cause_of_scan hscan.symm with hcause | ⟨literal, hcause⟩ <;> simp [hcause]
    obtain ⟨token, hrow, hposition⟩ := Row.exists_position_of_scan hscan.symm
    have hmem : token ∈ tokenize source := Row.mem_tokenize htokenize hrow
    have hstream := hmem
    rw [Token.tokenize_eq_stream] at hstream
    rcases Token.mem_stream hstream with rfl | ⟨before, first, rest, hsource, hgap, htoken⟩
    · exact absurd rfl (Row.kind_ne_endOfInput hrow)
    · rw [Nat.zero_add] at htoken
      refine Or.inr ⟨hcause, token, before, first, rest, hposition.symm, hmem, hsource, hgap, htoken, ?_⟩
      -- an accepted source is a row to its end, so all of its characters take one byte
      have hnarrow := Stage.isNarrow_of_read (Prod.ext rfl (read_of_accepted ⟨expr, hparse⟩))
      intro c hbefore
      apply hnarrow c
      rw [hsource]
      exact List.mem_append_left _ hbefore

end Fault

end Abacus
