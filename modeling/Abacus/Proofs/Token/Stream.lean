import Abacus.Proofs.Token.Lexeme
import Abacus.Token.Lexer

/-!
# The stream of tokens

`Token.scan` lists tokens behind those it has found; `Token.stream` is the same list without them. Every token of
a stream is either the end of the input or the lexeme of a character that is no gap, at the offset of that
character. What a token of a stream looks like therefore follows from `Lexeme.read` alone, and where it stands
from the text before it.
-/

namespace Abacus

namespace Text

theorem byteLength_ofList (text : List Char) : byteLength text = (String.ofList text).utf8ByteSize := by
  induction text with
  | nil => rfl
  | cons c text ih =>
    rw [byteLength_cons, ih, ← List.singleton_append, String.ofList_append, String.utf8ByteSize_append]
    congr 1
    exact String.utf8ByteSize_singleton.symm

theorem byteLength_toList (source : String) : byteLength source.toList = source.utf8ByteSize := by
  rw [byteLength_ofList, String.ofList_toList]

end Text

namespace Token

/-- The tokens of a text that starts at an offset, the end of the input included. -/
def stream (offset : Nat) (text : List Char) : List Token :=
  match text with
  | [] => [endOfInput (.ofOffset offset)]
  | c :: text =>
    if isGap c then stream (offset + c.utf8Size) text
    else
      let lexeme := Lexeme.read c text
      lexeme.token offset :: stream (offset + lexeme.size) lexeme.rest
termination_by text.length
decreasing_by
  · simp
  · exact Lexeme.length_rest_lt c text

theorem scan_eq_stream (offset : Nat) (text : List Char) (read : List Token) :
    scan offset text read = read.reverse ++ stream offset text := by
  fun_induction scan offset text read with
  | case1 offset read => rw [stream, List.reverse_cons]
  | case2 offset read c text hgap ih => rw [ih, stream, if_pos hgap]
  | case3 offset read c text hgap lexeme ih =>
    rw [ih, stream, if_neg hgap, List.reverse_cons, List.append_assoc]
    rfl

theorem tokenize_eq_stream (source : String) : tokenize source = stream 0 source.toList := by
  rw [tokenize, scan_eq_stream]
  rfl

/-- A token of a stream is the end of the input, or the lexeme of a character that is no gap. -/
theorem mem_stream {offset : Nat} {text : List Char} {token : Token} (h : token ∈ stream offset text) :
    token = endOfInput (.ofOffset (offset + Text.byteLength text)) ∨
      ∃ left c right, text = left ++ c :: right ∧ isGap c = false ∧
        token = (Lexeme.read c right).token (offset + Text.byteLength left) := by
  fun_induction stream offset text with
  | case1 offset =>
    rw [List.mem_singleton.mp h]
    exact Or.inl rfl
  | case2 offset c text hgap ih =>
    rcases ih h with hend | ⟨left, d, right, rfl, hd, htoken⟩
    · left
      rw [hend, Text.byteLength_cons, Nat.add_assoc]
    · refine Or.inr ⟨c :: left, d, right, rfl, hd, ?_⟩
      rw [htoken, Text.byteLength_cons, Nat.add_assoc]
  | case3 offset c text hgap lexeme ih =>
    rcases List.mem_cons.mp h with rfl | hrest
    · exact Or.inr ⟨[], c, text, rfl, by simpa using hgap, rfl⟩
    · rcases ih hrest with hend | ⟨left, d, right, hsplit, hd, htoken⟩
      · left
        rw [hend, Nat.add_assoc, Lexeme.size_add_byteLength_rest]
      · refine Or.inr ⟨lexeme.covered ++ left, d, right, ?_, hd, ?_⟩
        · rw [List.append_assoc, ← hsplit]
          exact (Lexeme.covered_append_rest c text).symm
        · rw [htoken, Text.byteLength_append, Nat.add_assoc]
          rfl

theorem exists_stream_eq (offset : Nat) (text : List Char) :
    ∃ tokens, stream offset text = tokens ++ [endOfInput (.ofOffset (offset + Text.byteLength text))] ∧
      ∀ token ∈ tokens, token.kind ≠ .endOfInput := by
  fun_induction stream offset text with
  | case1 offset => exact ⟨[], rfl, by simp⟩
  | case2 offset c text hgap ih =>
    obtain ⟨tokens, hstream, htokens⟩ := ih
    refine ⟨tokens, ?_, htokens⟩
    rw [hstream, Text.byteLength_cons, Nat.add_assoc]
  | case3 offset c text hgap lexeme ih =>
    obtain ⟨tokens, hstream, htokens⟩ := ih
    refine ⟨lexeme.token offset :: tokens, ?_, ?_⟩
    · rw [hstream, Nat.add_assoc, Lexeme.size_add_byteLength_rest]
      rfl
    · intro token hmem
      rcases List.mem_cons.mp hmem with rfl | htail
      · exact Lexeme.kind_read_ne_endOfInput c text
      · exact htokens token htail

theorem position_token (lexeme : Lexeme) (offset : Nat) : (lexeme.token offset).position = .ofOffset offset := rfl

theorem toNat_position_of_le {offset : Nat} (h : offset ≤ Position.last) :
    (Position.ofOffset offset).toNat = offset := by
  rw [Position.toNat_ofOffset, Nat.min_eq_left h]

theorem le_toNat_position {offset : Nat} {text : List Char}
    (hfits : offset + Text.byteLength text ≤ Position.last) {token : Token} (h : token ∈ stream offset text) :
    offset ≤ token.position.toNat := by
  rcases mem_stream h with rfl | ⟨left, c, right, rfl, -, rfl⟩
  · rw [show (endOfInput (.ofOffset (offset + Text.byteLength text))).position = .ofOffset _ from rfl,
      toNat_position_of_le hfits]
    exact Nat.le_add_right _ _
  · rw [Text.byteLength_append] at hfits
    rw [position_token, toNat_position_of_le (by omega)]
    exact Nat.le_add_right _ _

/-- In a text that fits the positions no two tokens start at the same place. -/
theorem pairwise_position_stream {offset : Nat} {text : List Char}
    (hfits : offset + Text.byteLength text ≤ Position.last) :
    (stream offset text).Pairwise fun earlier later => earlier.position.toNat < later.position.toNat := by
  fun_induction stream offset text with
  | case1 offset => exact List.pairwise_singleton _ _
  | case2 offset c text hgap ih =>
    rw [Text.byteLength_cons] at hfits
    exact ih (by omega)
  | case3 offset c text hgap lexeme ih =>
    have hsize : lexeme.size + Text.byteLength lexeme.rest = Text.byteLength (c :: text) :=
      Lexeme.size_add_byteLength_rest c text
    have hpos : 0 < lexeme.size := Lexeme.size_pos c text
    have hrest : offset + lexeme.size + Text.byteLength lexeme.rest ≤ Position.last := by omega
    refine List.pairwise_cons.mpr ⟨?_, ih hrest⟩
    intro later hmem
    have hle := le_toNat_position hrest hmem
    rw [position_token, toNat_position_of_le (by omega)]
    omega

theorem eq_of_position_eq {offset : Nat} {text : List Char}
    (hfits : offset + Text.byteLength text ≤ Position.last) {left right : Token}
    (hleft : left ∈ stream offset text) (hright : right ∈ stream offset text)
    (h : left.position = right.position) : left = right := by
  have hpairwise := List.pairwise_iff_getElem.mp (pairwise_position_stream hfits)
  obtain ⟨i, hi, rfl⟩ := List.getElem_of_mem hleft
  obtain ⟨j, hj, rfl⟩ := List.getElem_of_mem hright
  rcases Nat.lt_trichotomy i j with hlt | rfl | hgt
  · have hstart := hpairwise i j hi hj hlt
    rw [h] at hstart
    exact absurd hstart (Nat.lt_irrefl _)
  · rfl
  · have hstart := hpairwise j i hj hi hgt
    rw [h] at hstart
    exact absurd hstart (Nat.lt_irrefl _)

end Token

theorem exists_tokenize_eq (source : String) :
    ∃ tokens, tokenize source = tokens ++ [.endOfInput (.ofOffset source.utf8ByteSize)] ∧
      ∀ token ∈ tokens, token.kind ≠ .endOfInput := by
  have hstream := Token.exists_stream_eq 0 source.toList
  rwa [← Token.tokenize_eq_stream, Nat.zero_add, Text.byteLength_toList] at hstream

end Abacus
