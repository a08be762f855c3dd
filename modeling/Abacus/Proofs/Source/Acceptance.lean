import Abacus.Proofs.Expr.Reading
import Abacus.Proofs.Source.Language
import Abacus.Proofs.Token.Stream

/-!
# Which sources are accepted

A source goes through tokens before it is read as a row, yet it is accepted exactly when its characters are in
the language of rows. A character is refused only where a token starts: behind digits a lexeme ends with the last
of them, and every other stage lies between two lexemes. The first token out of place is thus the one that starts
at the first refused character, or the end of the input if there is none.
-/

namespace Abacus

theorem isSign_of_rank_eq_zero {kind : TokenKind} (h : kind.rank = 0) : kind.isSign = false := by
  cases kind <;> first | rfl | exact absurd h (by decide)

namespace Stage

/-- The token that is out of place when a reader of characters stops, in a text that ends at offset `finish`. -/
def offender (finish : Nat) : Stage × List Char → Option Token
  | (.operand, []) => some (.endOfInput (.ofOffset finish))
  | (_, []) => none
  | (_, c :: rest) => some ((Lexeme.read c rest).token (finish - Text.byteLength (c :: rest)))

theorem offender_refused {stage : Stage} {c : Char} (h : stage.next? c = none) (offset : Nat) (text : List Char) :
    offender (offset + Text.byteLength (c :: text)) (stage.read (c :: text)) =
      some ((Lexeme.read c text).token offset) := by
  have hoffset : offset + Text.byteLength (c :: text) - Text.byteLength (c :: text) = offset :=
    Nat.add_sub_cancel _ _
  rw [read_cons_of_none h]
  cases stage <;> simp only [offender, hoffset]

/-- Behind digits a reader goes on as it does behind the whole run of them. -/
theorem offender_read_digits (finish : Nat) (text : List Char) :
    offender finish (digits.read text) = offender finish (operator.read (text.dropWhile Char.isDigit)) := by
  induction text with
  | nil => rfl
  | cons c text ih =>
    by_cases hdigit : c.isDigit = true
    · rw [read_cons_of_some (show digits.next? c = some digits from if_pos hdigit),
        List.dropWhile_cons_of_pos hdigit, ih]
    · rw [List.dropWhile_cons_of_neg hdigit]
      cases hnext : operator.next? c with
      | none =>
        rw [read_cons_of_none hnext, read_cons_of_none ((next?_digits_of_not_isDigit hdigit).trans hnext)]
        rfl
      | some next =>
        rw [read_cons_of_some hnext, read_cons_of_some ((next?_digits_of_not_isDigit hdigit).trans hnext)]

end Stage

namespace Parser

theorem offender_operand_cons_of_isSign {token : Token} (h : token.isSign = true) (reached : Position)
    (tokens : List Token) :
    offender .operand reached (token :: tokens) = offender .operand token.span.stop tokens := by
  rw [offender, if_pos h]

theorem offender_operand_cons_of_integer {token : Token} (h : token.kind = .integer) (reached : Position)
    (tokens : List Token) :
    offender .operand reached (token :: tokens) = offender .operator token.span.stop tokens := by
  rw [offender, if_neg (by simp [isSign_of_integer h]), if_pos h]

theorem offender_operand_cons_of_ne {token : Token} (hsign : token.isSign = false) (hinteger : token.kind ≠ .integer)
    (reached : Position) (tokens : List Token) : offender .operand reached (token :: tokens) = some token := by
  rw [offender, if_neg (by simp [hsign]), if_neg hinteger]

theorem offender_operator_cons_of_rank_pos {token : Token} (h : 0 < token.kind.rank) (reached : Position)
    (tokens : List Token) :
    offender .operator reached (token :: tokens) = offender .operand token.span.stop tokens := by
  rw [offender, if_neg (kind_ne_endOfInput h), if_neg (Nat.ne_of_gt h)]

theorem offender_operator_cons_of_rank_eq_zero {token : Token} (hend : token.kind ≠ .endOfInput)
    (hrank : token.kind.rank = 0) (reached : Position) (tokens : List Token) :
    offender .operator reached (token :: tokens) = some token := by
  rw [offender, if_neg hend, if_pos hrank]

/-- The first token out of place in the stream of a text is the one where a reader of characters stops. -/
theorem offender_stream (offset : Nat) (text : List Char) (reached : Position) :
    offender .operand reached (Token.stream offset text) =
        Stage.offender (offset + Text.byteLength text) (Stage.operand.read text) ∧
      offender .operator reached (Token.stream offset text) =
        Stage.offender (offset + Text.byteLength text) (Stage.operator.read text) := by
  -- the induction is along the tokens; an operand and an operator await each other, so both go together
  fun_induction Token.stream offset text generalizing reached with
  | case1 offset => exact ⟨rfl, rfl⟩
  | case2 offset c text hgap ih =>
    have hfinish : offset + c.utf8Size + Text.byteLength text = offset + Text.byteLength (c :: text) := by
      rw [Text.byteLength_cons, Nat.add_assoc]
    have hoperand : Stage.operand.next? c = some .operand := by simp [Stage.next?, hgap]
    have hoperator : Stage.operator.next? c = some .operator := by simp [Stage.next?, hgap]
    rw [Stage.read_cons_of_some hoperand, Stage.read_cons_of_some hoperator, ← hfinish]
    exact ih reached
  | case3 offset c text hgap lexeme ih =>
    have hfinish : offset + lexeme.size + Text.byteLength lexeme.rest = offset + Text.byteLength (c :: text) := by
      rw [Nat.add_assoc]
      exact congrArg _ (Lexeme.size_add_byteLength_rest c text)
    rw [hfinish] at ih
    have hnotGap : isGap c = false := by simpa using hgap
    by_cases hdigit : c.isDigit = true
    · have hlexeme : lexeme = Lexeme.digits c text := Lexeme.read_of_isDigit hdigit text
      have hinteger : (lexeme.token offset).kind = .integer := by rw [hlexeme]; rfl
      constructor
      · rw [offender_operand_cons_of_integer hinteger, (ih _).2, hlexeme,
          Stage.read_cons_of_some (Stage.next?_operand_of_isDigit hdigit)]
        exact (Stage.offender_read_digits _ text).symm
      · rw [offender_operator_cons_of_rank_eq_zero (by rw [hinteger]; decide) (by rw [hinteger]; decide),
          Stage.offender_refused (Stage.next?_operator_of_isDigit hdigit)]
    · by_cases hoperator : isOperatorChar c = true
      · obtain ⟨hrank, hsign, hrest⟩ := Lexeme.kind_read_of_isOperatorChar hoperator text
        have htokenRank : 0 < (lexeme.token offset).kind.rank := hrank
        rw [show lexeme.rest = text from hrest] at ih ⊢
        constructor
        · by_cases hsignChar : isSignChar c = true
          · have hisSign : (lexeme.token offset).isSign = true := hsign.trans hsignChar
            rw [offender_operand_cons_of_isSign hisSign, (ih _).1,
              Stage.read_cons_of_some (Stage.next?_operand_of_isSignChar hsignChar)]
          · have hnotSign : (lexeme.token offset).isSign = false := hsign.trans (by simpa using hsignChar)
            have hinteger : (lexeme.token offset).kind ≠ .integer := by
              intro hkind
              rw [show lexeme.kind = .integer from hkind] at hrank
              exact absurd hrank (by decide)
            rw [offender_operand_cons_of_ne hnotSign hinteger,
              Stage.offender_refused (Stage.next?_operand_eq_none hnotGap hdigit hsignChar)]
        · rw [offender_operator_cons_of_rank_pos htokenRank, (ih _).1,
            Stage.read_cons_of_some (Stage.next?_operator_of_isOperatorChar hoperator)]
      · obtain ⟨hrank, hinteger, hend⟩ := Lexeme.kind_read_of_other hdigit hoperator text
        have htokenRank : (lexeme.token offset).kind.rank = 0 := hrank
        have htokenEnd : (lexeme.token offset).kind ≠ .endOfInput := hend
        have hnotInteger : (lexeme.token offset).kind ≠ .integer := hinteger
        have hnotSign : (lexeme.token offset).isSign = false := isSign_of_rank_eq_zero htokenRank
        have hsignChar : ¬ isSignChar c = true := by
          intro hsignChar
          exact hoperator (isOperatorChar_of_isSignChar hsignChar)
        constructor
        · rw [offender_operand_cons_of_ne hnotSign hnotInteger,
            Stage.offender_refused (Stage.next?_operand_eq_none hnotGap hdigit hsignChar)]
        · rw [offender_operator_cons_of_rank_eq_zero htokenEnd htokenRank,
            Stage.offender_refused (Stage.next?_operator_eq_none hnotGap hoperator)]

theorem mem_of_offender {awaited : Awaited} {reached : Position} {tokens : List Token} {token : Token}
    (h : offender awaited reached tokens = some token) (hend : token.kind ≠ .endOfInput) : token ∈ tokens := by
  induction tokens generalizing awaited reached with
  | nil =>
    cases awaited with
    | operand =>
      obtain rfl := Option.some.inj h
      exact absurd rfl hend
    | operator => simp [offender] at h
  | cons first tokens ih =>
    cases awaited with
    | operand =>
      rw [offender] at h
      split at h
      · exact List.mem_cons_of_mem first (ih h)
      · split at h
        · exact List.mem_cons_of_mem first (ih h)
        · rw [Option.some.inj h]
          exact List.mem_cons_self
    | operator =>
      rw [offender] at h
      split at h
      · simp at h
      · split at h
        · rw [Option.some.inj h]
          exact List.mem_cons_self
        · exact List.mem_cons_of_mem first (ih h)

end Parser

def Accepted (source : String) : Prop :=
  ∃ expr, Expr.parse (tokenize source) = .ok expr

def Extendable (text : String) : Prop :=
  ∃ more, Accepted (text ++ more)

theorem offender_tokenize (source : String) :
    Parser.offender .operand .start (tokenize source) =
      Stage.offender source.utf8ByteSize (Stage.operand.read source.toList) := by
  rw [Token.tokenize_eq_stream, (Parser.offender_stream 0 source.toList .start).1, Nat.zero_add,
    Text.byteLength_toList]

theorem accepted_iff_offender (source : String) :
    Accepted source ↔ Stage.offender source.utf8ByteSize (Stage.operand.read source.toList) = none := by
  have hfault := Expr.faultOf_parse (tokenize source)
  rw [offender_tokenize] at hfault
  constructor
  · rintro ⟨expr, hexpr⟩
    rw [hexpr] at hfault
    exact Option.map_eq_none_iff.mp hfault.symm
  · intro hnone
    rw [hnone] at hfault
    exact exists_eq_ok_of_faultOf hfault

theorem accepted_iff_mem_row (source : String) : Accepted source ↔ source.toList ∈ Written.row := by
  rw [accepted_iff_offender, show Written.row = Stage.operand.language from rfl, Stage.mem_language_iff]
  rcases Stage.operand.read source.toList with ⟨stage, rest⟩
  cases rest with
  | nil => cases stage <;> simp [Stage.offender]
  | cons c rest => cases stage <;> simp [Stage.offender]

theorem read_of_accepted {source : String} (h : Accepted source) : (Stage.operand.read source.toList).2 = [] :=
  ((Stage.mem_language_iff .operand source.toList).mp ((accepted_iff_mem_row source).mp h)).1

theorem extendable_iff_read (text : String) : Extendable text ↔ (Stage.operand.read text.toList).2 = [] := by
  rw [← Stage.exists_append_mem_language_iff]
  constructor
  · rintro ⟨more, hmore⟩
    rw [accepted_iff_mem_row, String.toList_append] at hmore
    exact ⟨more.toList, hmore⟩
  · rintro ⟨more, hmore⟩
    refine ⟨String.ofList more, ?_⟩
    rw [accepted_iff_mem_row, String.toList_append, String.toList_ofList]
    exact hmore

/-- The longest prefix of a source that can still be extended, and the rest. -/
structure LongestViable (source viable refused : String) : Prop where
  split : source = viable ++ refused
  extendable : Extendable viable
  longest : ∀ left right : String, source = left ++ right → Extendable left →
    left.utf8ByteSize ≤ viable.utf8ByteSize

theorem longestViable_of_read {source : String} {before : List Char}
    (hsplit : source.toList = before ++ (Stage.operand.read source.toList).2)
    (hbefore : Stage.operand.read before = ((Stage.operand.read source.toList).1, []))
    (hrefused : ∀ c ∈ (Stage.operand.read source.toList).2.head?,
      (Stage.operand.read source.toList).1.next? c = none) :
    LongestViable source (String.ofList before) (String.ofList (Stage.operand.read source.toList).2) := by
  refine ⟨?_, ?_, ?_⟩
  · rw [← String.ofList_append, ← hsplit, String.ofList_toList]
  · rw [extendable_iff_read, String.toList_ofList, hbefore]
  · intro left right hsource hleft
    have hlists : before ++ (Stage.operand.read source.toList).2 = left.toList ++ right.toList := by
      rw [← hsplit, ← String.toList_append, ← hsource]
    obtain ⟨extra, rfl⟩ :=
      Stage.isPrefix_of_read_eq_nil hbefore hrefused hlists ((extendable_iff_read left).mp hleft)
    rw [String.ofList_append, String.ofList_toList, String.utf8ByteSize_append]
    exact Nat.le_add_right _ _

theorem fault_of_read_eq_nil {source : String} {stage : Stage} {fault : Fault}
    (h : Expr.parse (tokenize source) = .error fault) (hread : Stage.operand.read source.toList = (stage, [])) :
    fault = ⟨.unexpectedEndOfInput, .ofOffset source.utf8ByteSize⟩ := by
  obtain ⟨token, hoffender, rfl⟩ := Expr.exists_offender_of_parse h
  rw [offender_tokenize, hread] at hoffender
  cases stage with
  | operand =>
    obtain rfl := Option.some.inj hoffender
    rfl
  | digits => simp [Stage.offender] at hoffender
  | operator => simp [Stage.offender] at hoffender

theorem fault_of_read_eq_cons {source : String} {stage : Stage} {c : Char} {rest : List Char} {fault : Fault}
    (h : Expr.parse (tokenize source) = .error fault)
    (hread : Stage.operand.read source.toList = (stage, c :: rest)) :
    ∃ token ∈ tokenize source, token.position = .ofOffset (source.utf8ByteSize - Text.byteLength (c :: rest)) ∧
      fault = ⟨.illegalToken token.literal, token.position⟩ := by
  obtain ⟨token, hoffender, rfl⟩ := Expr.exists_offender_of_parse h
  have htoken : (Lexeme.read c rest).token (source.utf8ByteSize - Text.byteLength (c :: rest)) = token := by
    rw [offender_tokenize, hread] at hoffender
    cases stage <;> exact Option.some.inj hoffender
  have hend : token.kind ≠ .endOfInput := by
    rw [← htoken]
    exact Lexeme.kind_read_ne_endOfInput c rest
  refine ⟨token, Parser.mem_of_offender hoffender hend, ?_, ?_⟩
  · rw [← htoken]
    rfl
  · rw [Token.unexpected, if_neg hend]

/-- **Acceptance.** A source is accepted exactly when it is in the language of rows. Any other source is faulted
right behind its longest prefix that can still be extended: at its end if the whole source can be, and else at the
token that starts there. -/
theorem accepted_iff_and_fault_position (source : String) (hlength : source.utf8ByteSize < 2 ^ 32) :
    (Accepted source ↔ source.toList ∈ Written.row) ∧
      ∀ fault, Expr.parse (tokenize source) = .error fault →
        ∃ viable refused, LongestViable source viable refused ∧
          fault.position.toNat = viable.utf8ByteSize ∧
          (fault.cause = .unexpectedEndOfInput ↔ viable = source) ∧
          (viable ≠ source →
            (∀ more, ¬ Accepted (source ++ more)) ∧
            ∃ token ∈ tokenize source, token.position = fault.position ∧
              fault.cause = .illegalToken token.literal ∧
              ∀ other ∈ tokenize source, other.position = fault.position → other = token) := by
  refine ⟨accepted_iff_mem_row source, ?_⟩
  intro fault hparse
  obtain ⟨before, hsplit, hbefore, hrefused⟩ := Stage.exists_read_split .operand source.toList
  have hviable := longestViable_of_read hsplit hbefore hrefused
  refine ⟨_, _, hviable, ?_⟩
  have hsize : source.utf8ByteSize =
      (String.ofList before).utf8ByteSize + Text.byteLength (Stage.operand.read source.toList).2 := by
    rw [Text.byteLength_ofList, ← String.utf8ByteSize_append, ← hviable.split]
  rcases hread : Stage.operand.read source.toList with ⟨stage, rest⟩
  rw [hread] at hsplit hsize
  cases rest with
  | nil =>
    have hsource : String.ofList before = source := by
      rw [← String.ofList_toList (s := source), hsplit, List.append_nil]
    rw [fault_of_read_eq_nil hparse hread, hsource]
    refine ⟨?_, iff_of_true rfl rfl, fun hne => absurd rfl hne⟩
    exact Token.toNat_position_of_le (Nat.le_pred_of_lt hlength)
  | cons c rest =>
    have hstart : source.utf8ByteSize - Text.byteLength (c :: rest) = (String.ofList before).utf8ByteSize := by
      rw [hsize, Nat.add_sub_cancel]
    have hpos := c.utf8Size_pos
    have hne : String.ofList before ≠ source := by
      intro hsource
      rw [hsource, Text.byteLength_cons] at hsize
      omega
    obtain ⟨token, hmem, hposition, rfl⟩ := fault_of_read_eq_cons hparse hread
    rw [hstart] at hposition
    refine ⟨?_, iff_of_false (by simp) hne, fun _ => ⟨?_, token, hmem, rfl, rfl, ?_⟩⟩
    · have hbound : (String.ofList before).utf8ByteSize < 2 ^ 32 := by omega
      rw [hposition]
      exact Token.toNat_position_of_le (Nat.le_pred_of_lt hbound)
    · intro more haccepted
      have hextendable := (extendable_iff_read source).mp ⟨more, haccepted⟩
      rw [hread] at hextendable
      simp at hextendable
    · intro other hother hsame
      rw [Token.tokenize_eq_stream] at hmem hother
      refine Token.eq_of_position_eq ?_ hother hmem hsame
      rw [Nat.zero_add, Text.byteLength_toList]
      exact Nat.le_pred_of_lt hlength

/-- In `2*é` the letter is refused, two bytes behind the start. -/
theorem fault_position_letter :
    "2*é".utf8ByteSize < 2 ^ 32 ∧
      ∃ viable refused, LongestViable "2*é" viable refused ∧ viable.utf8ByteSize = 2 ∧ viable ≠ "2*é" := by
  have hparse : Expr.parse (tokenize "2*é") = .error ⟨.illegalToken "é", .ofOffset 2⟩ := by decide +kernel
  have hlength : "2*é".utf8ByteSize < 2 ^ 32 := by decide
  obtain ⟨viable, refused, hviable, hposition, hend, -⟩ :=
    (accepted_iff_and_fault_position "2*é" hlength).2 _ hparse
  refine ⟨hlength, viable, refused, hviable, hposition.symm, ?_⟩
  intro hwhole
  exact absurd (hend.mpr hwhole) (by decide)

end Abacus
