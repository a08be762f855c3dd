import Abacus.Proofs.Token.Stream

/-!
# What a lexer yields

A lexer that stands between two characters yields the tokens of the text ahead of it, one at a time, and comes to
stand between two characters again. It never finds itself inside of one unless it is moved there by hand.
-/

namespace Abacus.Lexer

theorem stream_eq_find (offset : Nat) (text : List Char) :
    Token.stream offset text = (find offset text).token ::
      if (find offset text).isEnd then [] else Token.stream (find offset text).offset (find offset text).rest := by
  induction text generalizing offset with
  | nil => rw [Token.stream, find, if_pos rfl]
  | cons c text ih =>
    by_cases hgap : isGap c = true
    · rw [Token.stream, if_pos hgap, find, if_pos hgap]
      exact ih (offset + c.utf8Size)
    · rw [Token.stream, if_neg hgap, find, if_neg hgap]
      rfl

/-- The tokens that a lexer has not yielded yet. -/
def left (lexer : Lexer) : List Token :=
  if lexer.finished then [] else Token.stream lexer.offset lexer.ahead

section Aligned

variable {lexer : Lexer} (haligned : lexer.skip = 0)
include haligned

theorem left_of_next {token : Token} {rest : Lexer} (h : lexer.next = .token token rest) :
    rest.skip = 0 ∧ lexer.left = token :: rest.left := by
  unfold next at h
  split at h
  · simp at h
  · rename_i hfinished
    split at h
    · rename_i hend
      obtain ⟨rfl, rfl⟩ := Step.token.inj h
      refine ⟨haligned, ?_⟩
      have hstream : Token.stream lexer.offset lexer.ahead = [.endOfInput (.ofOffset lexer.offset)] := by
        rw [List.isEmpty_iff.mp hend, Token.stream]
      rw [left, if_neg hfinished, hstream]
      rfl
    · obtain ⟨rfl, rfl⟩ := Step.token.inj h
      refine ⟨rfl, ?_⟩
      rw [left, if_neg hfinished, stream_eq_find]
      rfl

theorem left_of_exhausted (h : lexer.next = .exhausted) : lexer.left = [] := by
  unfold next at h
  split at h
  · rename_i hfinished
    rw [left, if_pos hfinished]
  · split at h <;> simp at h

theorem next_ne_misaligned : lexer.next ≠ .misaligned := by
  unfold next
  rw [dif_pos haligned]
  split
  · simp
  · split <;> simp

theorem drain_eq (read : List Token) : (lexer.drain read).1 = some (read.reverse ++ lexer.left) := by
  fun_induction drain lexer read with
  | case1 lexer read token rest hnext ih =>
    obtain ⟨hrest, hleft⟩ := left_of_next haligned hnext
    rw [ih hrest, hleft, List.reverse_cons, List.append_assoc, List.singleton_append]
  | case2 lexer read hnext => rw [left_of_exhausted haligned hnext, List.append_nil]
  | case3 lexer read hnext => exact absurd hnext (next_ne_misaligned haligned)

end Aligned

theorem rest_ofSource (source : String) : (ofSource source).rest.1 = some (tokenize source) := by
  have haligned : (ofSource source).skip = 0 := congrArg Prod.fst (Text.settle_zero source.toList)
  have hahead : (ofSource source).ahead = source.toList := congrArg Prod.snd (Text.settle_zero source.toList)
  have hfinished : ¬ (ofSource source).finished = true := Bool.false_ne_true
  rw [rest, drain_eq haligned, left, if_neg hfinished, hahead, Token.tokenize_eq_stream]
  rfl

end Abacus.Lexer
