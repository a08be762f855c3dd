import Abacus.Proofs.Text.Lines
import Abacus.Proofs.Token.Spelling
import Abacus.Proofs.Token.Stream
import Mathlib.Algebra.Ring.Parity

/-!
# Texts side by side

Tokens only know where they stand, so those of a text further on in a source are the same tokens with their spans
shifted. Two texts can be read one after the other if no lexeme reaches across the seam. Outside of quotes a lexeme
stops before anything that is no part of a word; a quoted text goes on to the next quote. Whether the seam lies inside
a quoted text is told by the number of quotes in front of it alone, since each closed one has two.
-/

namespace Abacus

/-! ### Shifted spans -/

def Position.shift (distance : Nat) (position : Position) : Position :=
  .ofOffset (position.toNat + distance)

/-- Beyond the last position there is nothing to lose: a shift of an offset is the offset shifted. -/
theorem Position.shift_ofOffset (distance offset : Nat) :
    (ofOffset offset).shift distance = ofOffset (offset + distance) := by
  rw [shift, toNat_ofOffset, ofOffset, ofOffset]
  congr 2
  omega

namespace Token

/-- A token that stands a number of bytes further on. -/
def shift (distance : Nat) (token : Token) : Token :=
  { token with span := ⟨token.span.start.shift distance, token.span.stop.shift distance⟩ }

theorem shift_endOfInput (distance offset : Nat) :
    (endOfInput (.ofOffset offset)).shift distance = endOfInput (.ofOffset (offset + distance)) := by
  simp [shift, endOfInput, Span.empty, Position.shift_ofOffset]

theorem shift_token (distance offset : Nat) (lexeme : Lexeme) :
    (lexeme.token offset).shift distance = lexeme.token (offset + distance) := by
  simp [shift, Lexeme.token, Span.ofOffset, Position.shift_ofOffset, Nat.add_right_comm]

theorem map_shift_stream (distance offset : Nat) (text : List Char) :
    (stream offset text).map (shift distance) = stream (offset + distance) text := by
  fun_induction stream offset text with
  | case1 offset => rw [stream, List.map_singleton, shift_endOfInput]
  | case2 offset c text hgap ih => rw [ih, stream, if_pos hgap, Nat.add_right_comm]
  | case3 offset c text hgap lexeme ih =>
    rw [List.map_cons, ih, shift_token, stream, if_neg hgap, Nat.add_right_comm]

theorem map_shift_tokenize (distance : Nat) (text : List Char) :
    (tokenize (String.ofList text)).map (shift distance) = stream distance text := by
  rw [tokenize_eq_stream, String.toList_ofList, map_shift_stream, Nat.zero_add]

end Token

/-! ### Quotes in lexemes -/

theorem Text.utf8Size_of_isGap {c : Char} (h : isGap c = true) : c.utf8Size = 1 := by
  rcases eq_of_isGap h with rfl | rfl | rfl | rfl <;> rfl

theorem isWordPart_eq_false_of_isGap {c : Char} (h : isGap c = true) : isWordPart c = false := by
  rcases eq_of_isGap h with rfl | rfl | rfl | rfl <;> rfl

theorem isDigit_eq_false_of_isWordPart {c : Char} (h : isWordPart c = false) : c.isDigit = false := by
  simp only [isWordPart, Char.isAlphanum, Bool.or_eq_false_iff] at h
  exact h.1.2

theorem count_quote_of_isGap {c : Char} (h : isGap c = true) (text : List Char) :
    (c :: text).count '"' = text.count '"' := by
  apply List.count_cons_of_ne
  rintro rfl
  exact absurd h (by decide)

theorem even_count_quote_of_notMem {text : List Char} (h : '"' ∉ text) : Even (text.count '"') := by
  rw [List.count_eq_zero_of_not_mem h]
  exact Even.zero

namespace Lexeme

section Spelled

variable {kind : TokenKind} {literal : String} {covered after : List Char} (h : Spelled kind literal covered after)
include h

/-- A lexeme with an odd number of quotes is a quoted text that is left open, and nothing follows it. -/
theorem Spelled.even_count_quote_or : Even (covered.count '"') ∨ covered.count '"' = 1 ∧ after = [] := by
  cases h with
  | digits hfirst hmore =>
    left
    apply even_count_quote_of_notMem
    intro hmem
    rcases List.mem_cons.mp hmem with rfl | hrest
    · exact absurd hfirst (by decide)
    · exact absurd (hmore _ hrest) (by decide)
  | word hfirst hmore =>
    left
    apply even_count_quote_of_notMem
    intro hmem
    rcases List.mem_cons.mp hmem with rfl | hrest
    · exact absurd hfirst (by decide)
    · exact absurd (hmore _ hrest) (by decide)
  | closed hinner =>
    left
    rw [List.count_cons_self, List.count_append, List.count_eq_zero_of_not_mem hinner]
    decide
  | unclosed hinner =>
    right
    rw [List.count_cons_self, List.count_eq_zero_of_not_mem hinner]
    exact ⟨rfl, rfl⟩
  | mark hmark =>
    left
    apply even_count_quote_of_notMem
    intro hmem
    rw [← List.mem_singleton.mp hmem] at hmark
    cases kind <;> simp [TokenKind.mark?] at hmark
  | illegal _ _ _ hquote =>
    left
    apply even_count_quote_of_notMem
    simpa using Ne.symm hquote

theorem Spelled.even_count_quote (heven : Even ((covered ++ after).count '"')) :
    Even (covered.count '"') ∧ Even (after.count '"') := by
  rw [List.count_append] at heven
  rcases h.even_count_quote_or with hcovered | ⟨hone, rfl⟩
  · exact ⟨hcovered, (Nat.even_add.mp heven).mp hcovered⟩
  · rw [hone] at heven
    exact absurd heven (by decide)

/-- A lexeme that is no open quoted text ends before anything that is no part of a word, and before whatever starts
like what follows it. -/
theorem Spelled.of_head? (heven : Even (covered.count '"')) {other : List Char}
    (hother : ∀ c ∈ other.head?, isWordPart c = false ∨ c ∈ after.head?) : Spelled kind literal covered other := by
  have hclass : ∀ {inClass : Char → Bool}, (∀ c, isWordPart c = false → inClass c = false) →
      (∀ c ∈ after.head?, inClass c = false) → ∀ c ∈ other.head?, inClass c = false := by
    intro inClass hpart hafter c hmem
    rcases hother c hmem with hc | hc
    · exact hpart c hc
    · exact hafter c hc
  cases h with
  | digits hfirst hmore hafter =>
    exact .digits hfirst hmore (hclass (fun c => isDigit_eq_false_of_isWordPart) hafter)
  | word hfirst hmore hafter hkind => exact .word hfirst hmore (hclass (fun c => id) hafter) hkind
  | closed hinner => exact .closed hinner
  | unclosed hinner =>
    rw [List.count_cons_self, List.count_eq_zero_of_not_mem hinner] at heven
    exact absurd heven (by decide)
  | mark hmark => exact .mark hmark
  | illegal hgap hword hdigit hquote hmark => exact .illegal hgap hword hdigit hquote hmark

theorem Spelled.byteLength_closed (heven : Even (covered.count '"')) (hkind : kind = .quotedText) :
    Text.byteLength covered = literal.utf8ByteSize + 2 := by
  cases h with
  | digits => exact absurd hkind (by decide)
  | word _ _ _ hword =>
    subst hkind
    cases hword
  | @closed inner _ hinner =>
    rw [Text.byteLength_cons, Text.byteLength_append, Text.byteLength_cons, Text.byteLength_nil,
      Text.byteLength_ofList, show '"'.utf8Size = 1 from rfl]
    omega
  | unclosed hinner =>
    rw [List.count_cons_self, List.count_eq_zero_of_not_mem hinner] at heven
    exact absurd heven (by decide)
  | mark hmark =>
    subst hkind
    cases hmark
  | illegal => exact absurd hkind (by decide)

end Spelled

end Lexeme

/-! ### Reading on behind a seam -/

namespace Token

/-- What is read in front of some text is also read in front of another one that no word goes on with. -/
theorem stream_of_read {c : Char} {text : List Char} (hgap : isGap c = false)
    (heven : Even ((Lexeme.read c text).covered.count '"')) {other : List Char}
    (hother : ∀ d ∈ other.head?, isWordPart d = false ∨ d ∈ (Lexeme.read c text).rest.head?) (offset : Nat) :
    stream offset ((Lexeme.read c text).covered ++ other) =
      (Lexeme.read c text).token offset :: stream (offset + (Lexeme.read c text).size) other := by
  have hspelled := (Lexeme.spelled_read hgap text).of_head? heven hother
  cases hsplit : (Lexeme.read c text).covered ++ other with
  | nil => exact absurd (List.append_eq_nil_iff.mp hsplit).1 (Lexeme.covered_ne_nil c text)
  | cons d more =>
    obtain ⟨hd, hread⟩ := hspelled.read_eq hsplit.symm
    rw [stream, if_neg (by simp [hd]), hread]
    rfl

/-- Behind an even number of quotes, and not inside a word, reading starts afresh. -/
theorem stream_append {offset : Nat} {text more : List Char} (heven : Even (text.count '"'))
    (hmore : ∀ c ∈ more.head?, isWordPart c = false) :
    stream offset (text ++ more) =
      (stream offset text).dropLast ++ stream (offset + Text.byteLength text) more := by
  fun_induction stream offset text with
  | case1 offset => simp
  | case2 offset c text hgap ih =>
    rw [count_quote_of_isGap hgap] at heven
    rw [List.cons_append, stream, if_pos hgap, ih heven, Text.byteLength_cons, Nat.add_assoc]
  | case3 offset c text hgap lexeme ih =>
    have hnotGap : isGap c = false := by simpa using hgap
    have hsplit : lexeme.covered ++ lexeme.rest = c :: text := Lexeme.covered_append_rest c text
    rw [← hsplit] at heven
    obtain ⟨hcovered, hrest⟩ := (Lexeme.spelled_read hnotGap text).even_count_quote heven
    have hhead : ∀ d ∈ (lexeme.rest ++ more).head?, isWordPart d = false ∨ d ∈ lexeme.rest.head? := by
      intro d hmem
      rw [List.head?_append, Option.mem_def, Option.or_eq_some_iff] at hmem
      rcases hmem with hfirst | ⟨-, hfirst⟩
      · exact Or.inr hfirst
      · exact Or.inl (hmore d hfirst)
    have hne : stream (offset + lexeme.size) lexeme.rest ≠ [] := by
      obtain ⟨tokens, hstream, -⟩ := exists_stream_eq (offset + lexeme.size) lexeme.rest
      simp [hstream]
    have hsize : offset + lexeme.size + Text.byteLength lexeme.rest = offset + Text.byteLength (c :: text) := by
      rw [Nat.add_assoc]
      exact congrArg _ (Lexeme.size_add_byteLength_rest c text)
    calc stream offset (c :: text ++ more)
        = stream offset (lexeme.covered ++ (lexeme.rest ++ more)) := by rw [← hsplit, List.append_assoc]
      _ = lexeme.token offset :: stream (offset + lexeme.size) (lexeme.rest ++ more) :=
        stream_of_read hnotGap hcovered hhead offset
      _ = (lexeme.token offset :: stream (offset + lexeme.size) lexeme.rest).dropLast ++
            stream (offset + Text.byteLength (c :: text)) more := by
        rw [ih hrest, hsize, List.dropLast_cons_of_ne_nil hne, List.cons_append]

/-! ### Quoted texts that are left open -/

/-- A quoted text without its closing quote: the span has room for the opening quote and the literal only. -/
def IsUnclosed (token : Token) : Prop :=
  token.kind = .quotedText ∧ token.span.stop.toNat = token.span.start.toNat + 1 + token.literal.utf8ByteSize

theorem not_isUnclosed_of_even {offset : Nat} {text : List Char}
    (hfits : offset + Text.byteLength text ≤ Position.last) (heven : Even (text.count '"')) :
    ∀ token ∈ stream offset text, ¬ token.IsUnclosed := by
  fun_induction stream offset text with
  | case1 offset =>
    rintro token hmem ⟨hkind, -⟩
    rw [List.mem_singleton.mp hmem] at hkind
    exact TokenKind.noConfusion hkind
  | case2 offset c text hgap ih =>
    rw [count_quote_of_isGap hgap] at heven
    rw [Text.byteLength_cons, ← Nat.add_assoc] at hfits
    exact ih hfits heven
  | case3 offset c text hgap lexeme ih =>
    have hspelled : Lexeme.Spelled lexeme.kind lexeme.literal lexeme.covered lexeme.rest :=
      Lexeme.spelled_read (by simpa using hgap) text
    rw [← show lexeme.covered ++ lexeme.rest = c :: text from Lexeme.covered_append_rest c text] at heven
    obtain ⟨hcovered, hrest⟩ := hspelled.even_count_quote heven
    have hsize : lexeme.size + Text.byteLength lexeme.rest = Text.byteLength (c :: text) :=
      Lexeme.size_add_byteLength_rest c text
    intro token hmem
    rcases List.mem_cons.mp hmem with rfl | hlater
    · rintro ⟨hkind, hstop⟩
      have hclosed : lexeme.size = lexeme.literal.utf8ByteSize + 2 := hspelled.byteLength_closed hcovered hkind
      rw [show (lexeme.token offset).span.stop = .ofOffset (offset + lexeme.size) from rfl,
        show (lexeme.token offset).span.start = .ofOffset offset from rfl, toNat_position_of_le (by omega),
        toNat_position_of_le (by omega)] at hstop
      have hliteral : (lexeme.token offset).literal = lexeme.literal := rfl
      rw [hliteral] at hstop
      omega
    · exact ih (by omega) hrest token hlater

/-- A quoted text goes up to the next quote, and reading goes on behind that. -/
theorem stream_quote (offset : Nat) (text : List Char) :
    ∃ stop, stop + Text.byteLength (text.dropWhile isUnquoted).tail = offset + 1 + Text.byteLength text ∧
      stream offset ('"' :: text) =
        ⟨.quotedText, String.ofList (text.takeWhile isUnquoted), ⟨.ofOffset offset, .ofOffset stop⟩⟩ ::
          stream stop (text.dropWhile isUnquoted).tail := by
  have hrest : (Lexeme.quoted text).rest = (text.dropWhile isUnquoted).tail ∧
      (Lexeme.quoted text).literal = String.ofList (text.takeWhile isUnquoted) := by
    unfold Lexeme.quoted
    split <;> rename_i hdrop <;> rw [hdrop] <;> exact ⟨rfl, rfl⟩
  have hsize := Lexeme.size_add_byteLength_rest '"' text
  rw [Lexeme.read_quote, hrest.1, Text.byteLength_cons] at hsize
  refine ⟨offset + (Lexeme.quoted text).size, ?_, ?_⟩
  · rw [show '"'.utf8Size = 1 from rfl] at hsize
    omega
  · rw [stream, if_neg (by decide), Lexeme.read_quote]
    dsimp only
    rw [hrest.1, Lexeme.token, hrest.2, Lexeme.kind_quoted]
    rfl

end Token

/-- A text with an odd number of quotes has a last one, which opens a quoted text. -/
theorem Text.exists_last_quote {text : List Char} (h : Odd (text.count '"')) :
    ∃ before inner, text = before ++ '"' :: inner ∧ Even (before.count '"') ∧ '"' ∉ inner := by
  obtain ⟨inner, htext, hinner⟩ := exists_dropTrailing isUnquoted text
  have hquote : '"' ∉ inner := fun hmem => absurd (hinner _ hmem) (by decide)
  have hlast := getLast?_dropTrailing isUnquoted text
  rw [htext, List.count_append, List.count_eq_zero_of_not_mem hquote, Nat.add_zero] at h
  rcases List.eq_nil_or_concat (dropTrailing isUnquoted text) with hnil | ⟨before, last, hbefore⟩
  · rw [hnil] at h
    exact absurd h (by decide)
  · rw [hbefore, List.concat_eq_append] at htext hlast h
    obtain rfl : last = '"' := by simpa [isUnquoted] using hlast last (by simp)
    rw [List.count_append, List.count_singleton_self, Nat.odd_add_one, Nat.not_odd_iff_even] at h
    exact ⟨before, inner, by rw [htext, List.append_assoc, List.singleton_append], h, hquote⟩

theorem Token.stream_gap {gap : Char} (hgap : isGap gap = true) (offset : Nat) (text : List Char) :
    stream offset (gap :: text) = stream (offset + 1) text := by
  rw [stream, if_pos hgap, Text.utf8Size_of_isGap hgap]

/-- A text with an odd number of quotes ends with the one quoted text in it that is left open. Whatever follows the
text goes on with it, up to a quote. -/
theorem Token.exists_unclosed_of_odd {text : List Char} (hfits : Text.byteLength text ≤ Position.last)
    (hodd : Odd (text.count '"')) :
    ∃ front last, stream 0 text = front ++ [last, endOfInput (.ofOffset (Text.byteLength text))] ∧
      last.IsUnclosed ∧ (∀ token ∈ front, ¬ token.IsUnclosed) ∧
      ∀ more, ∃ stop, stop + Text.byteLength (more.dropWhile isUnquoted).tail = Text.byteLength (text ++ more) ∧
        stream 0 (text ++ more) =
          front ++
            ⟨.quotedText, last.literal ++ String.ofList (more.takeWhile isUnquoted),
              ⟨last.span.start, .ofOffset stop⟩⟩ ::
            stream stop (more.dropWhile isUnquoted).tail := by
  obtain ⟨before, inner, rfl, heven, hinner⟩ := Text.exists_last_quote hodd
  have hunquoted := Lexeme.isUnquoted_of_notMem hinner
  have hsize : Text.byteLength (before ++ '"' :: inner) = Text.byteLength before + 1 + Text.byteLength inner := by
    rw [Text.byteLength_append, Text.byteLength_cons, show '"'.utf8Size = 1 from rfl, Nat.add_assoc]
  have hmore : ∀ more, ∃ stop,
      stop + Text.byteLength (more.dropWhile isUnquoted).tail = Text.byteLength (before ++ '"' :: inner ++ more) ∧
        stream 0 (before ++ '"' :: inner ++ more) =
          (stream 0 before).dropLast ++
            ⟨.quotedText, String.ofList inner ++ String.ofList (more.takeWhile isUnquoted),
              ⟨.ofOffset (Text.byteLength before), .ofOffset stop⟩⟩ ::
            stream stop (more.dropWhile isUnquoted).tail := by
    intro more
    have hquote : ∀ c ∈ ('"' :: (inner ++ more)).head?, isWordPart c = false := by
      intro c hhead
      obtain rfl := Option.mem_some.mp hhead
      decide
    obtain ⟨stop, hstop, hstream⟩ := stream_quote (Text.byteLength before) (inner ++ more)
    rw [List.dropWhile_append_of_pos hunquoted] at hstop hstream
    rw [List.takeWhile_append_of_pos hunquoted, String.ofList_append] at hstream
    rw [Text.byteLength_append inner, ← Nat.add_assoc, ← hsize, ← Text.byteLength_append] at hstop
    refine ⟨stop, hstop, ?_⟩
    rw [List.append_assoc, List.cons_append, stream_append heven hquote, Nat.zero_add, hstream]
  refine ⟨(stream 0 before).dropLast,
    ⟨.quotedText, String.ofList inner, ⟨.ofOffset (Text.byteLength before),
      .ofOffset (Text.byteLength (before ++ '"' :: inner))⟩⟩, ?_, ⟨rfl, ?_⟩, ?_, hmore⟩
  · obtain ⟨stop, hstop, hstream⟩ := hmore []
    simp only [List.append_nil, List.dropWhile_nil, List.takeWhile_nil, List.tail_nil, Text.byteLength_nil,
      Nat.add_zero, String.ofList_nil, String.append_empty, stream] at hstop hstream
    rw [hstream, hstop]
  · dsimp only
    rw [toNat_position_of_le hfits, toNat_position_of_le (by omega), ← Text.byteLength_ofList, hsize]
  · intro token hmem
    have hbefore : 0 + Text.byteLength before ≤ Position.last := by omega
    exact not_isUnclosed_of_even hbefore heven token (List.dropLast_subset _ hmem)

/-- **Texts side by side.** Let a source be two texts with a gap between them. If the first one has an even number of
quotes, the tokens are those of the first text, without the end of the input, and then those of the second one,
shifted. Otherwise the last token of the first text, and no other, is a quoted text that is left open. In the source it
goes on with the gap and the second text up to a quote; the tokens before it stay, and behind the quote reading starts
afresh. -/
theorem tokenize_joined (first second : String) {gap : Char} (hgap : gap ∈ [' ', '\t', '\n', '\r'])
    (hlength : (first ++ String.singleton gap ++ second).utf8ByteSize < 2 ^ 32) :
    (Even (first.toList.count '"') →
      ∃ tokens, tokenize first = tokens ++ [.endOfInput (.ofOffset first.utf8ByteSize)] ∧
        tokenize (first ++ String.singleton gap ++ second) =
          tokens ++ (tokenize second).map (Token.shift (first.utf8ByteSize + 1))) ∧
    (Odd (first.toList.count '"') →
      ∃ front last stop, tokenize first = front ++ [last, .endOfInput (.ofOffset first.utf8ByteSize)] ∧
        last.IsUnclosed ∧ (∀ token ∈ front, ¬ token.IsUnclosed) ∧
        stop + Text.byteLength (second.toList.dropWhile isUnquoted).tail =
          (first ++ String.singleton gap ++ second).utf8ByteSize ∧
        tokenize (first ++ String.singleton gap ++ second) =
          front ++
            ⟨.quotedText, last.literal ++ String.singleton gap ++ String.ofList (second.toList.takeWhile isUnquoted),
              ⟨last.span.start, .ofOffset stop⟩⟩ ::
            (tokenize (String.ofList (second.toList.dropWhile isUnquoted).tail)).map (Token.shift stop)) := by
  have hisGap : isGap gap = true := isGap_iff_mem.mpr hgap
  have hjoined : (first ++ String.singleton gap ++ second).toList = first.toList ++ gap :: second.toList := by simp
  constructor
  · intro heven
    obtain ⟨tokens, htokens, -⟩ := exists_tokenize_eq first
    have hhead : ∀ c ∈ (gap :: second.toList).head?, isWordPart c = false := by
      intro c hhead
      obtain rfl := Option.mem_some.mp hhead
      exact isWordPart_eq_false_of_isGap hisGap
    refine ⟨tokens, htokens, ?_⟩
    have hsecond := Token.map_shift_tokenize (first.utf8ByteSize + 1) second.toList
    rw [String.ofList_toList] at hsecond
    rw [Token.tokenize_eq_stream, hjoined, Token.stream_append heven hhead, ← Token.tokenize_eq_stream, htokens,
      List.dropLast_concat, Token.stream_gap hisGap, Nat.zero_add, Text.byteLength_toList, hsecond]
  · intro hodd
    have hfits : Text.byteLength first.toList ≤ Position.last := by
      rw [← Text.byteLength_toList, hjoined, Text.byteLength_append] at hlength
      exact Nat.le_pred_of_lt (Nat.lt_of_le_of_lt (Nat.le_add_right _ _) hlength)
    obtain ⟨front, last, hstream, hlast, hfront, hmore⟩ := Token.exists_unclosed_of_odd hfits hodd
    obtain ⟨stop, hstop, hextended⟩ := hmore (gap :: second.toList)
    have hunquoted : isUnquoted gap = true := by
      rcases eq_of_isGap hisGap with rfl | rfl | rfl | rfl <;> rfl
    rw [List.dropWhile_cons_of_pos hunquoted] at hstop hextended
    rw [List.takeWhile_cons_of_pos hunquoted] at hextended
    rw [← hjoined, Text.byteLength_toList] at hstop
    have hliteral : ∀ text, String.ofList (gap :: text) = String.singleton gap ++ String.ofList text := by
      intro text
      rw [← List.singleton_append, String.ofList_append, String.singleton_eq_ofList]
    refine ⟨front, last, stop, ?_, hlast, hfront, hstop, ?_⟩
    · rw [Token.tokenize_eq_stream, hstream, Text.byteLength_toList]
    · rw [Token.tokenize_eq_stream, hjoined, hextended, Token.map_shift_tokenize, hliteral, String.append_assoc]

/-- The quoted text that `1"a` leaves open goes on in the next line, up to the quote there. -/
theorem tokenize_joined_open_quote :
    '\n' ∈ [' ', '\t', '\n', '\r'] ∧ ("1\"a" ++ String.singleton '\n' ++ "é\"2").utf8ByteSize < 2 ^ 32 ∧
      Odd ("1\"a".toList.count '"') ∧
      ∃ front last, tokenize "1\"a" = front ++ [last, .endOfInput (.ofOffset 3)] ∧ last.IsUnclosed ∧
        tokenize ("1\"a" ++ String.singleton '\n' ++ "é\"2") =
          front ++ [⟨.quotedText, last.literal ++ "\n" ++ "é", ⟨last.span.start, .ofOffset 7⟩⟩,
            ⟨.integer, "2", .ofOffset 7 1⟩, .endOfInput (.ofOffset 8)] := by
  have hgap : '\n' ∈ [' ', '\t', '\n', '\r'] := by decide
  have hlength : ("1\"a" ++ String.singleton '\n' ++ "é\"2").utf8ByteSize < 2 ^ 32 := by decide
  have hodd : Odd ("1\"a".toList.count '"') := by decide
  obtain ⟨front, last, stop, hfirst, hlast, -, hstop, hjoined⟩ :=
    (tokenize_joined "1\"a" "é\"2" hgap hlength).2 hodd
  obtain rfl : stop = 7 := by
    have hafter : Text.byteLength ("é\"2".toList.dropWhile isUnquoted).tail = 1 := by decide
    have hsize : ("1\"a" ++ String.singleton '\n' ++ "é\"2").utf8ByteSize = 8 := by decide
    omega
  have hrest : (tokenize (String.ofList ("é\"2".toList.dropWhile isUnquoted).tail)).map (Token.shift 7) =
      [⟨.integer, "2", .ofOffset 7 1⟩, .endOfInput (.ofOffset 8)] := by decide +kernel
  have hinner : String.ofList ("é\"2".toList.takeWhile isUnquoted) = "é" := by decide
  rw [hrest, hinner] at hjoined
  exact ⟨hgap, hlength, hodd, front, last, hfirst, hlast, hjoined⟩

end Abacus
