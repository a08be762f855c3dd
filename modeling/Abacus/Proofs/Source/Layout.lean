import Abacus.Proofs.Expr.Sameness
import Abacus.Proofs.Source.Target
import Abacus.Proofs.Text.Lines
import Abacus.Proofs.Token.Seam

/-!
# The layout of a source

Tokens know where they stand, so a text can be laid out again from its tokens, each at its position behind spaces. All
that is lost is which gaps there were between the tokens, and how many behind the last one. Which gaps a text has does
not matter to its tokens either, as long as they stand outside of quotes, and an accepted source has no quotes. Sources
with the same expression are therefore laid out in the same way, and sources laid out in the same way have the same
expression.
-/

namespace Abacus

namespace Text

/-- A gap as a space: a tab, a line feed or a carriage return becomes one. -/
def blanked (c : Char) : Char :=
  if c ∈ [' ', '\t', '\n', '\r'] then ' ' else c

/-- A text with its gaps as spaces, up to the spaces at its end. -/
def settled (text : List Char) : List Char :=
  dropTrailing (· == ' ') (text.map blanked)

theorem blanked_of_isGap {c : Char} (h : isGap c = true) : blanked c = ' ' :=
  if_pos (isGap_iff_mem.mp h)

theorem blanked_of_not_isGap {c : Char} (h : isGap c = false) : blanked c = c :=
  if_neg (by rw [← isGap_iff_mem, h]; exact Bool.false_ne_true)

theorem isGap_blanked (c : Char) : isGap (blanked c) = isGap c := by
  cases h : isGap c with
  | true => rw [blanked_of_isGap h]; rfl
  | false => rw [blanked_of_not_isGap h, h]

theorem map_blanked_of_notGap {text : List Char} (h : ∀ c ∈ text, isGap c = false) : text.map blanked = text := by
  rw [List.map_congr_left fun c hmem => blanked_of_not_isGap (h c hmem)]
  exact List.map_id' text

theorem quote_notMem_map_blanked {text : List Char} (h : '"' ∉ text) : '"' ∉ text.map blanked := by
  intro hmem
  obtain ⟨c, hc, hquote⟩ := List.mem_map.mp hmem
  cases hgap : isGap c with
  | true =>
    rw [blanked_of_isGap hgap] at hquote
    exact absurd hquote (by decide)
  | false =>
    rw [blanked_of_not_isGap hgap] at hquote
    exact h (hquote ▸ hc)

theorem head?_map_blanked (text : List Char) :
    ∀ c ∈ (text.map blanked).head?, isWordPart c = false ∨ c ∈ text.head? := by
  intro c hmem
  rw [List.head?_map] at hmem
  obtain ⟨d, hd, rfl⟩ := Option.map_eq_some_iff.mp hmem
  cases hgap : isGap d with
  | true => exact Or.inl (isWordPart_eq_false_of_isGap ((isGap_blanked d).trans hgap))
  | false =>
    rw [blanked_of_not_isGap hgap]
    exact Or.inr hd

end Text

/-! ### Lexemes without quotes -/

namespace Lexeme

section Unquoted

variable {kind : TokenKind} {literal : String} {covered after : List Char} (h : Spelled kind literal covered after)
  (hquote : '"' ∉ covered)
include h hquote

theorem Spelled.literal_eq : literal = String.ofList covered := by
  cases h with
  | digits | word => rfl
  | closed | unclosed => exact absurd List.mem_cons_self hquote
  | mark | illegal => exact String.singleton_eq_ofList

theorem Spelled.isGap_eq_false : ∀ c ∈ covered, isGap c = false := by
  have hpart : ∀ c : Char, isWordPart c = true → isGap c = false := by
    intro c hc
    rw [Bool.eq_false_iff]
    intro hgap
    rw [isWordPart_eq_false_of_isGap hgap] at hc
    exact Bool.false_ne_true hc
  cases h with
  | digits hfirst hmore =>
    exact List.forall_mem_cons.mpr
      ⟨isGap_eq_false_of_isDigit hfirst, fun c hmem => isGap_eq_false_of_isDigit (hmore c hmem)⟩
  | word hfirst hmore =>
    exact List.forall_mem_cons.mpr
      ⟨isGap_eq_false_of_isWordStart hfirst, fun c hmem => hpart c (hmore c hmem)⟩
  | closed | unclosed => exact absurd List.mem_cons_self hquote
  | mark hmark => simpa using (isGap_eq_false_and_read_of_mark hmark []).1
  | illegal hgap => simpa using hgap

end Unquoted

section Read

variable {c : Char} {text : List Char} (hgap : isGap c = false) (hquote : '"' ∉ c :: text)
include hquote

theorem quote_notMem_read : '"' ∉ (read c text).covered ∧ '"' ∉ (read c text).rest := by
  rw [← covered_append_rest, List.mem_append, not_or] at hquote
  exact hquote

include hgap

theorem toList_literal_read : (read c text).literal.toList = (read c text).covered := by
  rw [(spelled_read hgap text).literal_eq (quote_notMem_read hquote).1, String.toList_ofList]

theorem map_blanked_read :
    (c :: text).map Text.blanked = (read c text).covered ++ (read c text).rest.map Text.blanked := by
  have hcovered := (spelled_read hgap text).isGap_eq_false (quote_notMem_read hquote).1
  rw [← covered_append_rest c text, List.map_append, Text.map_blanked_of_notGap hcovered]

end Read

end Lexeme

/-! ### Tokens and gaps -/

namespace Token

theorem stream_map_blanked {offset : Nat} {text : List Char} (hquote : '"' ∉ text) :
    stream offset (text.map Text.blanked) = stream offset text := by
  fun_induction stream offset text with
  | case1 offset => rw [List.map_nil, stream]
  | case2 offset c text hgap ih =>
    have hsize : (Text.blanked c).utf8Size = c.utf8Size := by
      rw [Text.blanked_of_isGap hgap, Text.utf8Size_of_isGap hgap]
      rfl
    rw [List.map_cons, stream, if_pos ((Text.isGap_blanked c).trans hgap), hsize]
    exact ih (List.not_mem_of_not_mem_cons hquote)
  | case3 offset c text hgap lexeme ih =>
    have hnotGap : isGap c = false := by simpa using hgap
    obtain ⟨hcovered, hrest⟩ := Lexeme.quote_notMem_read hquote
    rw [Lexeme.map_blanked_read hnotGap hquote,
      stream_of_read hnotGap (even_count_quote_of_notMem hcovered) (Text.head?_map_blanked _), ih hrest]

theorem stream_of_gaps {text : List Char} (h : ∀ c ∈ text, isGap c = true) (offset : Nat) :
    stream offset text = [endOfInput (.ofOffset (offset + Text.byteLength text))] := by
  induction text generalizing offset with
  | nil => rw [stream, Text.byteLength_nil, Nat.add_zero]
  | cons c text ih =>
    obtain ⟨hc, htext⟩ := List.forall_mem_cons.mp h
    rw [stream, if_pos hc, ih htext, Text.byteLength_cons, Nat.add_assoc]

/-- Gaps behind a text only move the end of the input. -/
theorem exists_stream_append_gaps {offset : Nat} {text gaps : List Char} (hquote : '"' ∉ text)
    (hgaps : ∀ c ∈ gaps, isGap c = true) :
    ∃ tokens near far, stream offset text = tokens ++ [endOfInput near] ∧
      stream offset (text ++ gaps) = tokens ++ [endOfInput far] := by
  obtain ⟨tokens, hstream, -⟩ := exists_stream_eq offset text
  have hhead : ∀ c ∈ gaps.head?, isWordPart c = false :=
    fun c hfirst => isWordPart_eq_false_of_isGap (hgaps c (List.mem_of_mem_head? hfirst))
  have hgapsStream : stream offset (text ++ gaps) = _ := stream_append (even_count_quote_of_notMem hquote) hhead
  rw [hstream, List.dropLast_concat, stream_of_gaps hgaps] at hgapsStream
  exact ⟨tokens, _, _, hstream, hgapsStream⟩

/-- A text has the tokens of its settled form, apart from where the input ends. -/
theorem exists_stream_settled {text : List Char} (hquote : '"' ∉ text) (offset : Nat) :
    ∃ tokens near far, stream offset (Text.settled text) = tokens ++ [endOfInput near] ∧
      stream offset text = tokens ++ [endOfInput far] := by
  obtain ⟨gaps, hsplit, hgaps⟩ := Text.exists_dropTrailing (· == ' ') (text.map Text.blanked)
  have hsettled : '"' ∉ Text.settled text :=
    fun hmem => Text.quote_notMem_map_blanked hquote (Text.mem_of_mem_dropTrailing hmem)
  have hblank : ∀ c ∈ gaps, isGap c = true := by
    intro c hmem
    rw [beq_iff_eq.mp (hgaps c hmem)]
    rfl
  obtain ⟨tokens, near, far, hnear, hfar⟩ := exists_stream_append_gaps hsettled hblank
  rw [← stream_map_blanked hquote, hsplit]
  exact ⟨tokens, near, far, hnear, hfar⟩

/-! ### Laying out tokens -/

/-- The text of tokens from an offset on, each at its place behind spaces. -/
def layOut (offset : Nat) : List Token → List Char
  | [] => []
  | token :: tokens =>
    List.replicate (token.span.start.toNat - offset) ' ' ++ token.literal.toList ++ layOut token.span.stop.toNat tokens

theorem layOut_of_lt {offset : Nat} {tokens : List Token} (hne : tokens ≠ [])
    (h : ∀ token ∈ tokens, offset + 1 ≤ token.position.toNat) :
    layOut offset tokens = ' ' :: layOut (offset + 1) tokens := by
  cases tokens with
  | nil => exact absurd rfl hne
  | cons token tokens =>
    have hstart : offset + 1 ≤ token.span.start.toNat := h token List.mem_cons_self
    have hspaces : token.span.start.toNat - offset = token.span.start.toNat - (offset + 1) + 1 := by omega
    rw [layOut, layOut, hspaces, List.replicate_succ]
    rfl

/-- The tokens of a text without quotes lay it out again, but for its gaps. -/
theorem layOut_stream {offset : Nat} {text : List Char} (hfits : offset + Text.byteLength text ≤ Position.last)
    (hquote : '"' ∉ text) : layOut offset (stream offset text) = text.map Text.blanked := by
  fun_induction stream offset text with
  | case1 offset =>
    have hstart : (endOfInput (.ofOffset offset)).span.start.toNat = offset := toNat_position_of_le hfits
    rw [layOut, hstart, Nat.sub_self]
    rfl
  | case2 offset c text hgap ih =>
    rw [Text.byteLength_cons, ← Nat.add_assoc] at hfits
    have hlater : ∀ token ∈ stream (offset + c.utf8Size) text, offset + 1 ≤ token.position.toNat := by
      intro token hmem
      have hle := le_toNat_position hfits hmem
      rwa [Text.utf8Size_of_isGap hgap] at hle
    have hne : stream (offset + c.utf8Size) text ≠ [] := by
      obtain ⟨tokens, hstream, -⟩ := exists_stream_eq (offset + c.utf8Size) text
      rw [hstream]
      exact List.append_ne_nil_of_right_ne_nil _ (List.cons_ne_nil _ _)
    -- one more space in front of the first token behind the gap
    rw [layOut_of_lt hne hlater, List.map_cons, Text.blanked_of_isGap hgap,
      ← ih hfits (List.not_mem_of_not_mem_cons hquote), Text.utf8Size_of_isGap hgap]
  | case3 offset c text hgap lexeme ih =>
    have hnotGap : isGap c = false := by simpa using hgap
    have hsize : lexeme.size + Text.byteLength lexeme.rest = Text.byteLength (c :: text) :=
      Lexeme.size_add_byteLength_rest c text
    have hstart : (lexeme.token offset).span.start.toNat = offset := toNat_position_of_le (by omega)
    have hstop : (lexeme.token offset).span.stop.toNat = offset + lexeme.size := toNat_position_of_le (by omega)
    rw [layOut, hstart, hstop, Nat.sub_self, ih (by omega) (Lexeme.quote_notMem_read hquote).2,
      Lexeme.map_blanked_read hnotGap hquote]
    exact congrArg (· ++ _) (Lexeme.toList_literal_read hnotGap hquote)

theorem exists_layOut_append_end (tokens : List Token) (finish : Position) (offset : Nat) :
    ∃ count, layOut offset (tokens ++ [endOfInput finish]) = layOut offset tokens ++ List.replicate count ' ' := by
  induction tokens generalizing offset with
  | nil => exact ⟨finish.toNat - offset, by simp [layOut, endOfInput, Span.empty]⟩
  | cons token tokens ih =>
    obtain ⟨count, hcount⟩ := ih token.span.stop.toNat
    refine ⟨count, ?_⟩
    rw [List.cons_append, layOut, hcount, layOut, List.append_assoc, List.append_assoc, List.append_assoc]

/-- The settled form of a text without quotes is told by its tokens. -/
theorem settled_eq_layOut {text : List Char} (hfits : Text.byteLength text ≤ Position.last) (hquote : '"' ∉ text)
    {tokens : List Token} {finish : Position} (h : stream 0 text = tokens ++ [endOfInput finish]) :
    Text.settled text = Text.dropTrailing (· == ' ') (layOut 0 tokens) := by
  have hlayOut : layOut 0 (stream 0 text) = text.map Text.blanked := layOut_stream (by rwa [Nat.zero_add]) hquote
  obtain ⟨count, hcount⟩ := exists_layOut_append_end tokens finish 0
  calc Text.settled text
      = Text.dropTrailing (· == ' ') (layOut 0 (stream 0 text)) := by rw [Text.settled, hlayOut]
    _ = Text.dropTrailing (· == ' ') (layOut 0 tokens ++ List.replicate count ' ') := by rw [h, hcount]
    _ = Text.dropTrailing (· == ' ') (layOut 0 tokens) := Text.dropTrailing_append (by simp) _

end Token

/-! ### Accepted sources -/

theorem quote_notMem_of_accepted {source : String} (h : Accepted source) : '"' ∉ source.toList := by
  intro hmem
  rcases Stage.class_of_read (Prod.ext rfl (read_of_accepted h)) _ hmem with hgap | hdigit | hoperator
  · exact absurd hgap (by decide)
  · exact absurd hdigit (by decide)
  · exact absurd hoperator (by decide)

/-- Tokens can be grouped well in one way only. -/
theorem Expr.eq_of_tokens_eq {left right : Expr} (hleft : left.WellGrouped) (hright : right.WellGrouped)
    (h : left.tokens = right.tokens) : left = right := by
  obtain ⟨leftRow, rfl⟩ := exists_row hleft
  obtain ⟨rightRow, rfl⟩ := exists_row hright
  have hatEnd : Parser.AtEnd [] := by simp [Parser.AtEnd]
  have hparse := parse_tokens leftRow hatEnd
  rw [← leftRow.tokens_expr, h, rightRow.tokens_expr, parse_tokens rightRow hatEnd] at hparse
  exact (Except.ok.inj hparse).symm

theorem Expr.parse_of_interpret {source : String} {evaluation : Evaluation} (h : interpret source = .ok evaluation) :
    parse (tokenize source) = .ok evaluation.expr ∧ evaluation.expr.evaluate = .ok evaluation.value := by
  rw [interpret] at h
  cases hparse : parse (tokenize source) with
  | error fault =>
    rw [hparse] at h
    simp at h
  | ok expr =>
    rw [hparse] at h
    dsimp only [Expr.evaluation] at h
    cases hevaluate : expr.evaluate with
    | error fault =>
      rw [hevaluate] at h
      simp at h
    | ok value =>
      rw [hevaluate] at h
      obtain rfl := Except.ok.inj h
      exact ⟨rfl, hevaluate⟩

theorem Evaluation.sameOutcome_iff_expr_eq {source other : String} {left right : Evaluation}
    (hleft : interpret source = .ok left) (hright : interpret other = .ok right) :
    sameOutcome (interpret source) (interpret other) = true ↔ left.expr = right.expr := by
  rw [hleft, hright, sameOutcome, Bool.and_eq_true, beq_iff_eq, Expr.same_iff_eq]
  refine and_iff_left_of_imp ?_
  intro hexpr
  have hleftValue := (Expr.parse_of_interpret hleft).2
  have hrightValue := (Expr.parse_of_interpret hright).2
  rw [hexpr, hrightValue] at hleftValue
  exact (Except.ok.inj hleftValue).symm

/-- The settled form of an accepted source is what the tokens of its expression lay out, and has these very tokens. -/
theorem settled_of_parse {source : String} (hlength : source.utf8ByteSize < 2 ^ 32) {expr : Expr}
    (h : Expr.parse (tokenize source) = .ok expr) :
    Text.settled source.toList = Text.dropTrailing (· == ' ') (Token.layOut 0 expr.tokens) ∧
      ∃ finish, Token.stream 0 (Text.settled source.toList) = expr.tokens ++ [.endOfInput finish] := by
  have hfits : Text.byteLength source.toList ≤ Position.last := by
    rw [Text.byteLength_toList]
    exact Nat.le_pred_of_lt hlength
  have hquote := quote_notMem_of_accepted ⟨expr, h⟩
  obtain ⟨-, htokens⟩ := Expr.tokenize_of_parse h
  rw [Token.tokenize_eq_stream] at htokens
  refine ⟨Token.settled_eq_layOut hfits hquote htokens, ?_⟩
  obtain ⟨tokens, near, far, hnear, hfar⟩ := Token.exists_stream_settled hquote 0
  obtain ⟨rfl, -⟩ := List.append_inj' (htokens.symm.trans hfar) rfl
  exact ⟨near, hnear⟩

/-- **Layout.** Two sources with a value have the same expression, token for token with its span, and the same value
exactly when they differ only in which gaps stand between their tokens and in the gaps at their ends. -/
theorem sameOutcome_iff_settled_eq {source other : String} (hsource : source.utf8ByteSize < 2 ^ 32)
    (hother : other.utf8ByteSize < 2 ^ 32) {left right : Evaluation} (hleft : interpret source = .ok left)
    (hright : interpret other = .ok right) :
    Evaluation.sameOutcome (interpret source) (interpret other) = true ↔
      Text.settled source.toList = Text.settled other.toList := by
  obtain ⟨hleftParse, -⟩ := Expr.parse_of_interpret hleft
  obtain ⟨hrightParse, -⟩ := Expr.parse_of_interpret hright
  obtain ⟨hleftLayout, leftEnd, hleftTokens⟩ := settled_of_parse hsource hleftParse
  obtain ⟨hrightLayout, rightEnd, hrightTokens⟩ := settled_of_parse hother hrightParse
  rw [Evaluation.sameOutcome_iff_expr_eq hleft hright]
  constructor
  · intro hexpr
    rw [hleftLayout, hrightLayout, hexpr]
  · intro hsettled
    rw [hsettled, hrightTokens] at hleftTokens
    obtain ⟨htokens, -⟩ := List.append_inj' hleftTokens rfl
    exact Expr.eq_of_tokens_eq (Expr.tokenize_of_parse hleftParse).1 (Expr.tokenize_of_parse hrightParse).1 htokens.symm

/-- Tabs in place of spaces and a line feed at the end make no difference to a sum, and a space less does. -/
theorem sameOutcome_iff_settled_eq_sum :
    Text.settled "1 +\t2\n".toList = Text.settled "1\t+ 2".toList ∧
      Evaluation.sameOutcome (interpret "1 +\t2\n") (interpret "1\t+ 2") = true ∧
      Text.settled "1 +\t2\n".toList ≠ Text.settled "1+ 2".toList ∧
      ¬ Evaluation.sameOutcome (interpret "1 +\t2\n") (interpret "1+ 2") = true := by
  have hsettled : Text.settled "1 +\t2\n".toList = Text.settled "1\t+ 2".toList := by decide
  have hmoved : Text.settled "1 +\t2\n".toList ≠ Text.settled "1+ 2".toList := by decide
  have hfirst : interpret "1 +\t2\n" = .ok ⟨.binary ⟨.plus, "+", .ofOffset 2 1⟩
      (.literal ⟨.integer, "1", .ofOffset 0 1⟩) (.literal ⟨.integer, "2", .ofOffset 4 1⟩), 3⟩ := by decide +kernel
  have hsecond : interpret "1\t+ 2" = .ok ⟨.binary ⟨.plus, "+", .ofOffset 2 1⟩
      (.literal ⟨.integer, "1", .ofOffset 0 1⟩) (.literal ⟨.integer, "2", .ofOffset 4 1⟩), 3⟩ := by decide +kernel
  have hthird : interpret "1+ 2" = .ok ⟨.binary ⟨.plus, "+", .ofOffset 1 1⟩
      (.literal ⟨.integer, "1", .ofOffset 0 1⟩) (.literal ⟨.integer, "2", .ofOffset 3 1⟩), 3⟩ := by decide +kernel
  have hsame := sameOutcome_iff_settled_eq (by decide) (by decide) hfirst hsecond
  have hdiffers := sameOutcome_iff_settled_eq (by decide) (by decide) hfirst hthird
  exact ⟨hsettled, hsame.mpr hsettled, hmoved, fun h => hmoved (hdiffers.mp h)⟩

end Abacus
