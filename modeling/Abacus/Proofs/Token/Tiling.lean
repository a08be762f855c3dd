import Abacus.Proofs.Token.Lexer
import Abacus.Proofs.Token.Spelling
import Mathlib.Algebra.Group.Nat.Defs

/-!
# Tokens tile a source

The tokens of a source lie side by side in it, with nothing but gaps between them, and each is spelled as its kind is
in front of the text that follows. `Token.Tile` says this of any list of tokens and any text that starts at an
offset. It leaves no choice: a gap at the front of the text belongs to no token, and any other character starts the
token that is read there. Only one list of tokens therefore tiles a text, and it is the one that a lexer yields.
-/

namespace Abacus

namespace Position

theorem ofOffset_toNat (position : Position) : ofOffset position.toNat = position := by
  have hle : position.toNat ≤ last := Nat.le_pred_of_lt position.offset.toNat_lt
  rw [ofOffset, Nat.min_eq_left hle, toNat, UInt32.ofNat_toNat]

theorem eq_ofOffset {position : Position} {offset : Nat} (h : position.toNat = offset) :
    position = ofOffset offset := by
  rw [← h, ofOffset_toNat]

end Position

namespace Text

theorem byteLength_eq_zero {text : List Char} (h : byteLength text = 0) : text = [] := by
  cases text with
  | nil => rfl
  | cons c text =>
    have := c.utf8Size_pos
    rw [byteLength_cons] at h
    omega

/-- Of two texts at the front of a third, the one with fewer bytes is at the front of the other. -/
theorem exists_append_of_byteLength_le {left right front back : List Char} (h : left ++ right = front ++ back)
    (hle : byteLength left ≤ byteLength front) : ∃ more, front = left ++ more ∧ right = more ++ back := by
  rcases List.append_eq_append_iff.mp h with ⟨more, rfl, rfl⟩ | ⟨more, rfl, rfl⟩
  · exact ⟨more, rfl, rfl⟩
  · rw [byteLength_append] at hle
    obtain rfl := byteLength_eq_zero (show byteLength more = 0 by omega)
    exact ⟨[], by simp, by simp⟩

end Text

namespace Token

/-- A token in a text that starts at an offset: it covers a part of the text, which is spelled as its kind is in
front of what comes `after`. -/
structure Occupies (token : Token) (offset : Nat) (before covered after : List Char) : Prop where
  covered_ne_nil : covered ≠ []
  start : token.span.start.toNat = offset + Text.byteLength before
  stop : token.span.stop.toNat = offset + Text.byteLength before + Text.byteLength covered
  spelled : Lexeme.Spelled token.kind token.literal covered after

/-- Tokens that lie in order in a text that starts at an offset and leave out nothing but gaps. -/
structure Tile (offset : Nat) (text : List Char) (tokens : List Token) : Prop where
  occupies : ∀ token ∈ tokens, ∃ before covered after,
    text = before ++ covered ++ after ∧ token.Occupies offset before covered after
  ordered : tokens.Pairwise fun earlier later => earlier.span.stop.toNat ≤ later.span.start.toNat
  gap_or_covered : ∀ before c after, text = before ++ c :: after → c ∈ [' ', '\t', '\n', '\r'] ∨
    ∃ token ∈ tokens, token.span.start.toNat ≤ offset + Text.byteLength before ∧
      offset + Text.byteLength before + c.utf8Size ≤ token.span.stop.toNat

theorem occupies_append_iff {token : Token} {offset : Nat} {passed before covered after : List Char} :
    token.Occupies offset (passed ++ before) covered after ↔
      token.Occupies (offset + Text.byteLength passed) before covered after := by
  have hoffset : offset + Text.byteLength (passed ++ before) =
      offset + Text.byteLength passed + Text.byteLength before := by
    rw [Text.byteLength_append, Nat.add_assoc]
  constructor
  · rintro ⟨hne, hstart, hstop, hspelled⟩
    exact ⟨hne, hoffset ▸ hstart, hoffset ▸ hstop, hspelled⟩
  · rintro ⟨hne, hstart, hstop, hspelled⟩
    exact ⟨hne, hoffset ▸ hstart, hoffset ▸ hstop, hspelled⟩

section Front

variable {token : Token} {offset : Nat} {c : Char} {text covered after : List Char}

/-- The token at the very front of a text is the one that is read there. -/
theorem Occupies.eq_read (h : token.Occupies offset [] covered after) (hsplit : c :: text = covered ++ after) :
    isGap c = false ∧ token = (Lexeme.read c text).token offset ∧ covered = (Lexeme.read c text).covered ∧
      after = (Lexeme.read c text).rest := by
  obtain ⟨hgap, hread⟩ := h.spelled.read_eq hsplit
  rw [hread]
  refine ⟨hgap, ?_, rfl, rfl⟩
  have hstart : token.span.start = .ofOffset offset := Position.eq_ofOffset h.start
  have hstop : token.span.stop = .ofOffset (offset + Text.byteLength covered) := Position.eq_ofOffset h.stop
  rcases token with ⟨kind, literal, start, stop⟩
  rw [Lexeme.token, Span.ofOffset, ← hstart, Lexeme.size, ← hstop]

theorem occupies_read (hgap : isGap c = false) (hfits : offset + Text.byteLength (c :: text) ≤ Position.last) :
    ((Lexeme.read c text).token offset).Occupies offset [] (Lexeme.read c text).covered
      (Lexeme.read c text).rest := by
  have hsize := Lexeme.size_add_byteLength_rest c text
  refine ⟨Lexeme.covered_ne_nil c text, ?_, ?_, Lexeme.spelled_read hgap text⟩
  · exact toNat_position_of_le (show offset ≤ Position.last by omega)
  · exact toNat_position_of_le (show offset + (Lexeme.read c text).size ≤ Position.last by omega)

end Front

namespace Tile

variable {offset : Nat} {text : List Char} {tokens : List Token}

theorem nil_iff : Tile offset [] tokens ↔ tokens = [] := by
  constructor
  · intro h
    rw [List.eq_nil_iff_forall_not_mem]
    intro token hmem
    obtain ⟨before, covered, after, hsplit, hoccupies⟩ := h.occupies token hmem
    exact hoccupies.covered_ne_nil (by simp_all)
  · rintro rfl
    exact ⟨by simp, .nil, by simp⟩

/-- A gap at the front belongs to no token. -/
theorem cons_gap_iff {c : Char} (hgap : isGap c = true) :
    Tile offset (c :: text) tokens ↔ Tile (offset + c.utf8Size) text tokens := by
  have hpassed : offset + Text.byteLength [c] = offset + c.utf8Size := by simp
  constructor
  · intro h
    refine ⟨?_, h.ordered, ?_⟩
    · intro token hmem
      obtain ⟨before, covered, after, hsplit, hoccupies⟩ := h.occupies token hmem
      cases before with
      | nil =>
        have hfront := (hoccupies.eq_read hsplit).1
        rw [hgap] at hfront
        exact absurd hfront (by decide)
      | cons d before =>
        obtain ⟨rfl, rfl⟩ := List.cons.inj hsplit
        rw [← List.singleton_append, occupies_append_iff, hpassed] at hoccupies
        exact ⟨before, covered, after, rfl, hoccupies⟩
    · intro before d after hsplit
      have hcovered := h.gap_or_covered (c :: before) d after (congrArg (c :: ·) hsplit)
      rwa [Text.byteLength_cons, ← Nat.add_assoc] at hcovered
  · intro h
    refine ⟨?_, h.ordered, ?_⟩
    · intro token hmem
      obtain ⟨before, covered, after, rfl, hoccupies⟩ := h.occupies token hmem
      rw [← hpassed, ← occupies_append_iff] at hoccupies
      exact ⟨c :: before, covered, after, rfl, hoccupies⟩
    · intro before d after hsplit
      cases before with
      | nil =>
        obtain ⟨rfl, -⟩ := List.cons.inj hsplit
        exact Or.inl (isGap_iff_mem.mp hgap)
      | cons e before =>
        obtain ⟨rfl, hrest⟩ := List.cons.inj hsplit
        have hcovered := h.gap_or_covered before d after hrest
        rwa [Text.byteLength_cons, ← Nat.add_assoc]

section Cons

variable {c : Char} {token : Token}

/-- The first token lies at the front, where it is what is read from a character that is no gap. -/
theorem occupies_front (hgap : isGap c = false) (h : Tile offset (c :: text) (token :: tokens)) :
    token.Occupies offset [] (Lexeme.read c text).covered (Lexeme.read c text).rest ∧
      token = (Lexeme.read c text).token offset := by
  have hfront : ∃ covered after, c :: text = covered ++ after ∧ token.Occupies offset [] covered after := by
    obtain ⟨before, covered, after, hsplit, hoccupies⟩ := h.occupies token List.mem_cons_self
    rcases h.gap_or_covered [] c text rfl with hblank | ⟨other, hmem, hstart, -⟩
    · rw [← isGap_iff_mem, hgap] at hblank
      exact absurd hblank Bool.false_ne_true
    · -- a token in front of the one that covers the first character would have to be empty
      have hle : token.span.start.toNat ≤ other.span.start.toNat := by
        have hbounds := hoccupies.stop
        rcases List.mem_cons.mp hmem with rfl | hlater
        · exact Nat.le_refl _
        · have hordered := (List.pairwise_cons.mp h.ordered).1 other hlater
          rw [hoccupies.start]
          omega
      have hbefore : Text.byteLength before = 0 := by
        have := hoccupies.start
        rw [Text.byteLength_nil] at hstart
        omega
      obtain rfl := Text.byteLength_eq_zero hbefore
      exact ⟨covered, after, hsplit, hoccupies⟩
  obtain ⟨covered, after, hsplit, hoccupies⟩ := hfront
  obtain ⟨-, htoken, rfl, rfl⟩ := hoccupies.eq_read hsplit
  exact ⟨hoccupies, htoken⟩

/-- Behind the first token the other tokens tile the rest of the text. -/
theorem tail (hgap : isGap c = false) (h : Tile offset (c :: text) (token :: tokens)) :
    Tile (offset + (Lexeme.read c text).size) (Lexeme.read c text).rest tokens := by
  obtain ⟨hfront, -⟩ := occupies_front hgap h
  obtain ⟨hfirst, hordered⟩ := List.pairwise_cons.mp h.ordered
  have hstop : token.span.stop.toNat = offset + Text.byteLength (Lexeme.read c text).covered := hfront.stop
  have hsplit := Lexeme.covered_append_rest c text
  refine ⟨?_, hordered, ?_⟩
  · intro later hmem
    obtain ⟨before, covered, after, hlater, hoccupies⟩ := h.occupies later (List.mem_cons_of_mem token hmem)
    have hle : Text.byteLength (Lexeme.read c text).covered ≤ Text.byteLength before := by
      have := hfirst later hmem
      have := hoccupies.start
      omega
    rw [List.append_assoc] at hlater
    obtain ⟨more, rfl, hrest⟩ := Text.exists_append_of_byteLength_le (hsplit.trans hlater) hle
    rw [occupies_append_iff] at hoccupies
    exact ⟨more, covered, after, by rw [hrest, List.append_assoc], hoccupies⟩
  · intro before d after hrest
    have hcovered := h.gap_or_covered ((Lexeme.read c text).covered ++ before) d after
      (by rw [← hsplit, List.append_assoc, hrest])
    rw [Text.byteLength_append, ← Nat.add_assoc] at hcovered
    refine hcovered.imp_right ?_
    rintro ⟨other, hmem, hstart, hother⟩
    rcases List.mem_cons.mp hmem with rfl | hlater
    · have := d.utf8Size_pos
      omega
    · exact ⟨other, hlater, hstart, hother⟩

theorem cons (hgap : isGap c = false) (hfits : offset + Text.byteLength (c :: text) ≤ Position.last)
    (h : Tile (offset + (Lexeme.read c text).size) (Lexeme.read c text).rest tokens) :
    Tile offset (c :: text) ((Lexeme.read c text).token offset :: tokens) := by
  have hfront := occupies_read hgap hfits
  have hsplit := Lexeme.covered_append_rest c text
  have hlater : ∀ later ∈ tokens, ∃ before covered after, c :: text = before ++ covered ++ after ∧
      later.Occupies offset before covered after ∧
      ((Lexeme.read c text).token offset).span.stop.toNat ≤ later.span.start.toNat := by
    intro later hmem
    obtain ⟨before, covered, after, hrest, hoccupies⟩ := h.occupies later hmem
    refine ⟨(Lexeme.read c text).covered ++ before, covered, after, ?_, occupies_append_iff.mpr hoccupies, ?_⟩
    · rw [← hsplit, hrest, List.append_assoc, List.append_assoc, List.append_assoc]
    · rw [hfront.stop, hoccupies.start, Text.byteLength_nil, Nat.add_zero]
      exact Nat.le_add_right _ _
  refine ⟨?_, ?_, ?_⟩
  · intro token hmem
    rcases List.mem_cons.mp hmem with rfl | hlaterMem
    · exact ⟨[], _, _, by rw [List.nil_append, hsplit], hfront⟩
    · obtain ⟨before, covered, after, hlaterSplit, hoccupies, -⟩ := hlater token hlaterMem
      exact ⟨before, covered, after, hlaterSplit, hoccupies⟩
  · refine List.pairwise_cons.mpr ⟨?_, h.ordered⟩
    intro later hmem
    obtain ⟨_, _, _, -, -, hle⟩ := hlater later hmem
    exact hle
  · intro before d after hd
    have hbehind : ∀ more, before = (Lexeme.read c text).covered ++ more →
        (Lexeme.read c text).rest = more ++ d :: after → d ∈ [' ', '\t', '\n', '\r'] ∨
        ∃ token ∈ (Lexeme.read c text).token offset :: tokens,
          token.span.start.toNat ≤ offset + Text.byteLength before ∧
          offset + Text.byteLength before + d.utf8Size ≤ token.span.stop.toNat := by
      rintro more rfl hrest
      rw [Text.byteLength_append, ← Nat.add_assoc]
      refine (h.gap_or_covered more d after hrest).imp_right ?_
      rintro ⟨token, hmem, hcovers⟩
      exact ⟨token, List.mem_cons_of_mem _ hmem, hcovers⟩
    rcases List.append_eq_append_iff.mp (hsplit.trans hd) with ⟨more, hbefore, hrest⟩ | ⟨more, hcovered, hrest⟩
    · exact hbehind more hbefore hrest
    · cases more with
      | nil => exact hbehind [] (by simpa using hcovered.symm) hrest.symm
      | cons e more =>
        obtain ⟨rfl, -⟩ := List.cons.inj hrest
        refine Or.inr ⟨_, List.mem_cons_self, ?_, ?_⟩
        · rw [hfront.start, Text.byteLength_nil]
          omega
        · rw [hfront.stop, hcovered, Text.byteLength_append, Text.byteLength_cons, Text.byteLength_nil]
          omega

end Cons

end Tile

/-- Exactly one list of tokens tiles a text: its stream, up to the end of the input. -/
theorem tile_iff_stream {offset : Nat} {text : List Char} (hfits : offset + Text.byteLength text ≤ Position.last)
    (tokens : List Token) :
    Tile offset text tokens ↔
      tokens ++ [endOfInput (.ofOffset (offset + Text.byteLength text))] = stream offset text := by
  fun_induction stream offset text generalizing tokens with
  | case1 offset => simp [Tile.nil_iff]
  | case2 offset c text hgap ih =>
    rw [Text.byteLength_cons, ← Nat.add_assoc] at hfits ⊢
    rw [Tile.cons_gap_iff hgap, ih hfits]
  | case3 offset c text hgap lexeme ih =>
    have hnotGap : isGap c = false := by simpa using hgap
    have hsize : offset + lexeme.size + Text.byteLength lexeme.rest = offset + Text.byteLength (c :: text) := by
      rw [Nat.add_assoc]
      exact congrArg _ (Lexeme.size_add_byteLength_rest c text)
    rw [hsize] at ih
    constructor
    · intro h
      cases tokens with
      | nil =>
        rcases h.gap_or_covered [] c text rfl with hblank | ⟨token, hmem, -⟩
        · exact absurd (isGap_iff_mem.mpr hblank) hgap
        · simp at hmem
      | cons token tokens =>
        obtain ⟨-, rfl⟩ := Tile.occupies_front hnotGap h
        rw [List.cons_append, (ih hfits tokens).mp (Tile.tail hnotGap h)]
    · intro h
      cases tokens with
      | nil =>
        obtain ⟨hend, -⟩ := List.cons.inj h
        exact absurd (congrArg Token.kind hend).symm (Lexeme.kind_read_ne_endOfInput c text)
      | cons token tokens =>
        rw [List.cons_append] at h
        obtain ⟨rfl, hrest⟩ := List.cons.inj h
        exact Tile.cons hnotGap hfits ((ih hfits tokens).mpr hrest)

end Token

/-- **Tokens tile the source.** A lexer reads a source to its end. What it yields is the one list of tokens that ends
with an end of the input, the only one, behind the last byte, and before that tiles the source. -/
theorem tokenize_eq_iff_tile (source : String) (hlength : source.utf8ByteSize < 2 ^ 32) :
    (Lexer.ofSource source).rest.1 = some (tokenize source) ∧
      ∀ tokens, tokenize source = tokens ↔
        ∃ front finish, tokens = front ++ [.endOfInput finish] ∧ finish.toNat = source.utf8ByteSize ∧
          (∀ token ∈ front, token.kind ≠ .endOfInput) ∧ Token.Tile 0 source.toList front := by
  refine ⟨Lexer.rest_ofSource source, ?_⟩
  intro tokens
  have hfits : 0 + Text.byteLength source.toList ≤ Position.last := by
    rw [Nat.zero_add, Text.byteLength_toList]
    exact Nat.le_pred_of_lt hlength
  have htile := Token.tile_iff_stream hfits
  rw [Nat.zero_add, Text.byteLength_toList, ← Token.tokenize_eq_stream] at htile
  constructor
  · rintro rfl
    obtain ⟨front, htokenize, hfront⟩ := exists_tokenize_eq source
    refine ⟨front, _, htokenize, ?_, hfront, (htile front).mpr htokenize.symm⟩
    exact Token.toNat_position_of_le (Nat.le_pred_of_lt hlength)
  · rintro ⟨front, finish, rfl, hfinish, -, hfront⟩
    rw [Position.eq_ofOffset hfinish]
    exact ((htile front).mp hfront).symm

/-- A word, an illegal character of two bytes, and a quoted text that is left open tile `if é"1 `. -/
theorem tile_unclosed :
    "if é\"1 ".utf8ByteSize < 2 ^ 32 ∧
      Token.Tile 0 "if é\"1 ".toList
        [⟨.identifier, "if", .ofOffset 0 2⟩, ⟨.illegal, "é", .ofOffset 3 2⟩,
          ⟨.quotedText, "1 ", .ofOffset 5 3⟩] := by
  have hlength : "if é\"1 ".utf8ByteSize < 2 ^ 32 := by decide
  have htokens : (tokenize "if é\"1 ").dropLast =
      [⟨.identifier, "if", .ofOffset 0 2⟩, ⟨.illegal, "é", .ofOffset 3 2⟩,
        ⟨.quotedText, "1 ", .ofOffset 5 3⟩] := by decide +kernel
  obtain ⟨front, finish, htokenize, -, -, hfront⟩ := ((tokenize_eq_iff_tile _ hlength).2 _).mp rfl
  rw [htokenize, List.dropLast_concat] at htokens
  exact ⟨hlength, htokens ▸ hfront⟩

end Abacus
