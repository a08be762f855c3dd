import Abacus.Proofs.Expr.Outline
import Abacus.Proofs.Program.Parallel
import Abacus.Proofs.Source.Interpretation

/-!
# The canonical form of a source

The literals of a source that can be read are digits and operators. They are free of the characters that the canonical
form puts around them, and each of them tells its kind. Two sources that can be read therefore have one canonical form
exactly when they differ in nothing but where their tokens stand, and then they have the same value or fail alike.
-/

namespace Abacus

/-- The kind of a literal that is a number or an operator. -/
def TokenKind.ofWritten (literal : String) : TokenKind :=
  (literal.toList.head?.bind TokenKind.ofPunctuation?).getD .integer

theorem TokenKind.ofPunctuation?_of_isDigit {c : Char} (h : c.isDigit = true) : ofPunctuation? c = none := by
  rw [Option.eq_none_iff_forall_ne_some]
  intro kind hkind
  rw [ofPunctuation?_eq_some_iff] at hkind
  cases kind <;> cases hkind <;> exact absurd h (by decide)

namespace Token

section Written

variable {token : Token} (h : token.IsWritten)
include h

theorem IsWritten.isDigits_or_operator :
    token.IsDigits ∧ token.kind = .integer ∨
      ∃ c, isOperatorChar c = true ∧ token.literal = String.singleton c ∧
        TokenKind.ofPunctuation? c = some token.kind := by
  unfold IsWritten at h
  split at h
  · exact Or.inl ⟨h, by assumption⟩
  · exact Or.inr ⟨'+', rfl, h, by simp [*, TokenKind.ofPunctuation?]⟩
  · exact Or.inr ⟨'-', rfl, h, by simp [*, TokenKind.ofPunctuation?]⟩
  · exact Or.inr ⟨'*', rfl, h, by simp [*, TokenKind.ofPunctuation?]⟩
  · exact Or.inr ⟨'/', rfl, h, by simp [*, TokenKind.ofPunctuation?]⟩
  · exact h.elim

/-- The first character of a literal tells digits and the operators apart. -/
theorem IsWritten.kind_eq : token.kind = .ofWritten token.literal := by
  rcases h.isDigits_or_operator with ⟨hdigits, hkind⟩ | ⟨c, -, hliteral, hkind⟩
  · obtain ⟨first, rest, hliteral⟩ := List.exists_cons_of_ne_nil hdigits.1
    have hfirst : first.isDigit = true := hdigits.2 first (hliteral ▸ List.mem_cons_self)
    rw [hkind, TokenKind.ofWritten, hliteral]
    simp [TokenKind.ofPunctuation?_of_isDigit hfirst]
  · rw [TokenKind.ofWritten, hliteral]
    simp [hkind]

theorem IsWritten.isPlain : IsPlain token.literal := by
  rcases h.isDigits_or_operator with ⟨hdigits, -⟩ | ⟨c, hoperator, hliteral, -⟩
  · have hnotMem : ∀ c : Char, c.isDigit = false → c ∉ token.literal.toList := by
      intro c hc hmem
      exact Bool.false_ne_true (hc.symm.trans (hdigits.2 c hmem))
    exact ⟨hnotMem _ rfl, hnotMem _ rfl, hnotMem _ rfl⟩
  · rw [hliteral]
    rcases eq_of_isOperatorChar hoperator with rfl | rfl | rfl | rfl <;> decide

end Written

theorem IsWritten.alike {left right : Token} (hleft : left.IsWritten) (hright : right.IsWritten)
    (h : left.literal = right.literal) : left.Alike right :=
  ⟨by rw [hleft.kind_eq, hright.kind_eq, h], h⟩

theorem forall₂_alike_of_isWritten {tokens others : List Token}
    (h : List.Forall₂ (fun left right => left.literal = right.literal) tokens others)
    (htokens : ∀ token ∈ tokens, token.IsWritten) (hothers : ∀ token ∈ others, token.IsWritten) :
    List.Forall₂ Alike tokens others := by
  induction h with
  | nil => exact .nil
  | cons hliteral _ ih =>
    obtain ⟨hleft, htokens⟩ := List.forall_mem_cons.mp htokens
    obtain ⟨hright, hothers⟩ := List.forall_mem_cons.mp hothers
    exact .cons (hleft.alike hright hliteral) (ih htokens hothers)

end Token

namespace Expr

theorem WellGrouped.chainsSigned {expr : Expr} (h : expr.WellGrouped) : expr.ChainsSigned := by
  induction expr with
  | literal => trivial
  | chain => exact h.2.1
  | binary operator left right ihleft ihright => exact ⟨ihleft h.1, ihright h.2.1⟩

theorem isWritten_of_parse {source : String} {expr : Expr} (h : parse (tokenize source) = .ok expr) :
    ∀ token ∈ expr.tokens, token.IsWritten := by
  obtain ⟨hwell, htokenize⟩ := tokenize_of_parse h
  obtain ⟨row, rfl⟩ := exists_row hwell
  rw [row.tokens_expr] at htokenize ⊢
  intro token hmem
  exact Token.isWritten_of_mem (Row.mem_tokenize htokenize hmem) (Row.kind_of_mem hmem)

theorem Parallel.evaluation {related : Token → Token → Prop}
    (halike : ∀ {left right : Token}, related left right → left.Alike right) {left right : Expr}
    (h : Parallel related left right) :
    InParallel (fun first second => first.value = second.value) (Fault.Parallel related)
      left.evaluation right.evaluation := by
  have hevaluate := h.evaluate halike
  unfold Expr.evaluation
  generalize left.evaluate = leftOutcome at hevaluate ⊢
  generalize right.evaluate = rightOutcome at hevaluate ⊢
  cases hevaluate with
  | ok hvalue => exact .ok hvalue
  | error hfault => exact .error hfault

section Sources

variable {source other : String} {left right : Expr} (hleft : parse (tokenize source) = .ok left)
  (hright : parse (tokenize other) = .ok right)
include hleft hright

/-- Literals tell the kinds of the tokens, so sources with one canonical form have tokens that are alike. -/
theorem alike_tokens_of_render_eq (h : left.render = right.render) :
    List.Forall₂ Token.Alike (tokenize source) (tokenize other) := by
  obtain ⟨hleftWell, hsource⟩ := tokenize_of_parse hleft
  obtain ⟨hrightWell, hother⟩ := tokenize_of_parse hright
  have hleftWritten := isWritten_of_parse hleft
  have hrightWritten := isWritten_of_parse hright
  have hliterals := (parallel_of_render_eq hleftWell.chainsSigned hrightWell.chainsSigned
    (fun token hmem => (hleftWritten token hmem).isPlain) (fun token hmem => (hrightWritten token hmem).isPlain)
    h).tokens
  rw [hsource, hother]
  exact List.rel_append (Token.forall₂_alike_of_isWritten hliterals hleftWritten hrightWritten)
    (.cons ⟨rfl, rfl⟩ .nil)

theorem parallel_of_alike_tokens (h : List.Forall₂ Token.Alike (tokenize source) (tokenize other)) :
    Parallel Token.Alike left right := by
  have hparse := parallel_parse id h
  rw [hleft, hright] at hparse
  cases hparse with
  | ok hexpr => exact hexpr

theorem render_eq_iff_alike_tokens :
    left.render = right.render ↔ List.Forall₂ Token.Alike (tokenize source) (tokenize other) :=
  ⟨alike_tokens_of_render_eq hleft hright, fun h => (parallel_of_alike_tokens hleft hright h).render_eq id⟩

theorem inParallel_interpret_of_render_eq (h : left.render = right.render) :
    InParallel (fun first second => first.value = second.value) (fun first second => first.cause = second.cause)
      (interpret source) (interpret other) := by
  have hexpr := parallel_of_alike_tokens hleft hright (alike_tokens_of_render_eq hleft hright h)
  rw [interpret, interpret, hleft, hright]
  exact (hexpr.evaluation id).mono fun _ _ hfault => hfault.1

end Sources

end Expr

/-- **The canonical form is faithful.** What is written is the bracketed form. Where every chain has a sign and literals
are free of brackets and commas, expressions with one form have one shape and the same literals in it. Two sources that
can be read therefore have one form exactly when their tokens agree in kind and literal, and then they have the same
value, or fail with the same cause. -/
theorem render_eq_bracketed_and_faithful :
    (∀ expr : Expr, expr.render = expr.bracketed) ∧
    (∀ left right : Expr, left.ChainsSigned → right.ChainsSigned →
      (∀ token ∈ left.tokens, IsPlain token.literal) → (∀ token ∈ right.tokens, IsPlain token.literal) →
      left.render = right.render → Expr.Parallel (fun first second => first.literal = second.literal) left right) ∧
    ∀ source other left right, Expr.parse (tokenize source) = .ok left → Expr.parse (tokenize other) = .ok right →
      (left.render = right.render ↔ List.Forall₂ Token.Alike (tokenize source) (tokenize other)) ∧
      (left.render = right.render →
        InParallel (fun first second => first.value = second.value) (fun first second => first.cause = second.cause)
          (interpret source) (interpret other)) := by
  refine ⟨Expr.render_eq_bracketed, ?_, ?_⟩
  · intro left right hleft hright hleftPlain hrightPlain hrender
    exact Expr.parallel_of_render_eq hleft hright hleftPlain hrightPlain hrender
  · intro source other left right hleft hright
    exact ⟨Expr.render_eq_iff_alike_tokens hleft hright, Expr.inParallel_interpret_of_render_eq hleft hright⟩

def tightDifference : Expr :=
  .binary ⟨.minus, "-", .ofOffset 1 1⟩ (.literal ⟨.integer, "1", .ofOffset 0 1⟩)
    (.chain ⟨.integer, "2", .ofOffset 3 1⟩ [⟨.plus, "+", .ofOffset 2 1⟩])

def spacedDifference : Expr :=
  .binary ⟨.minus, "-", .ofOffset 2 1⟩ (.literal ⟨.integer, "1", .ofOffset 0 1⟩)
    (.chain ⟨.integer, "2", .ofOffset 6 1⟩ [⟨.plus, "+", .ofOffset 4 1⟩])

/-- Blanks change neither the form nor the value of `1-+2`. -/
theorem render_eq_bracketed_and_faithful_difference :
    tightDifference.render = spacedDifference.render ∧
      Expr.Parallel (fun first second => first.literal = second.literal) tightDifference spacedDifference ∧
      List.Forall₂ Token.Alike (tokenize "1-+2") (tokenize "1 - + 2") ∧
      InParallel (fun first second => first.value = second.value) (fun first second => first.cause = second.cause)
        (interpret "1-+2") (interpret "1 - + 2") := by
  have htight : Expr.parse (tokenize "1-+2") = .ok tightDifference := by decide +kernel
  have hspaced : Expr.parse (tokenize "1 - + 2") = .ok spacedDifference := by decide +kernel
  have hrender : tightDifference.render = spacedDifference.render := by decide +kernel
  have htightPlain : ∀ token ∈ tightDifference.tokens, IsPlain token.literal := by decide
  have hspacedPlain : ∀ token ∈ spacedDifference.tokens, IsPlain token.literal := by decide
  obtain ⟨-, hfaithful, hsources⟩ := render_eq_bracketed_and_faithful
  obtain ⟨htokens, hinterpret⟩ := hsources _ _ _ _ htight hspaced
  refine ⟨hrender, ?_, htokens.mp hrender, hinterpret hrender⟩
  exact hfaithful _ _ ⟨trivial, List.cons_ne_nil _ _⟩ ⟨trivial, List.cons_ne_nil _ _⟩ htightPlain hspacedPlain hrender

end Abacus
