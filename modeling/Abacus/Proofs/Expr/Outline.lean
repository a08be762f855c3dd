import Abacus.Expr.Canonical
import Abacus.Proofs.Expr.Parallel
import Abacus.Proofs.Token.Spelling

/-!
# Reading the canonical form

The canonical form of an expression is a nest of brackets, each with a label and at most two brackets inside. The
bracket of an operator has two inside, that of an integer or a sign has the next sign inside if there is one. An outline
is such a nest. Where labels are free of brackets and commas the text of an outline can be read again, whatever follows
it, and apart from chains without signs the outline of an expression tells everything but the kinds and spans of its
tokens.
-/

namespace Abacus

/-- A text without the characters that the canonical form puts around its labels. -/
def IsPlain (text : String) : Prop :=
  '{' ∉ text.toList ∧ ',' ∉ text.toList ∧ '}' ∉ text.toList

instance (text : String) : Decidable (IsPlain text) :=
  inferInstanceAs (Decidable ('{' ∉ text.toList ∧ ',' ∉ text.toList ∧ '}' ∉ text.toList))

/-- The characters that end a label. -/
def isLabelEnd (c : Char) : Bool :=
  c == ',' || c == '}'

theorem IsPlain.not_isLabelEnd {text : String} (h : IsPlain text) : ∀ c ∈ text.toList, (!isLabelEnd c) = true := by
  intro c hmem
  have hcomma : c ≠ ',' := fun heq => h.2.1 (heq ▸ hmem)
  have hclose : c ≠ '}' := fun heq => h.2.2 (heq ▸ hmem)
  simp [isLabelEnd, hcomma, hclose]

/-- A label is known by where it ends. -/
theorem IsPlain.append_inj {label other : String} (hlabel : IsPlain label) (hother : IsPlain other)
    {rest more : List Char} (hrest : ∀ c ∈ rest.head?, isLabelEnd c = true)
    (hmore : ∀ c ∈ more.head?, isLabelEnd c = true) (h : label.toList ++ rest = other.toList ++ more) :
    label = other ∧ rest = more := by
  have hleft := Lexeme.takeWhile_exact rest hlabel.not_isLabelEnd fun c hc => by simp [hrest c hc]
  have hright := Lexeme.takeWhile_exact more hother.not_isLabelEnd fun c hc => by simp [hmore c hc]
  rw [h] at hleft
  exact ⟨String.toList_injective (hleft.1.symm.trans hright.1), hleft.2.symm.trans hright.2⟩

/-- A label in brackets, with nothing, one bracket or two brackets inside. -/
inductive Outline where
  | leaf (label : String)
  | one (label : String) (inner : Outline)
  | two (label : String) (first second : Outline)

namespace Outline

def label : Outline → String
  | leaf label => label
  | one label _ => label
  | two label _ _ => label

def text : Outline → List Char
  | leaf label => '{' :: (label.toList ++ ['}'])
  | one label inner => '{' :: (label.toList ++ ',' :: (inner.text ++ ['}']))
  | two label first second => '{' :: (label.toList ++ ',' :: (first.text ++ ',' :: (second.text ++ ['}'])))

/-- What is written behind the label. -/
def body : Outline → List Char
  | leaf _ => ['}']
  | one _ inner => ',' :: (inner.text ++ ['}'])
  | two _ first second => ',' :: (first.text ++ ',' :: (second.text ++ ['}']))

def IsPlain : Outline → Prop
  | leaf label => Abacus.IsPlain label
  | one label inner => Abacus.IsPlain label ∧ inner.IsPlain
  | two label first second => Abacus.IsPlain label ∧ first.IsPlain ∧ second.IsPlain

theorem text_append (outline : Outline) (rest : List Char) :
    outline.text ++ rest = '{' :: (outline.label.toList ++ (outline.body ++ rest)) := by
  cases outline <;> simp [text, label, body]

theorem IsPlain.label {outline : Outline} (h : outline.IsPlain) : Abacus.IsPlain outline.label := by
  cases outline with
  | leaf => exact h
  | one => exact h.1
  | two => exact h.1

theorem head?_body_append (outline : Outline) (rest : List Char) :
    ∀ c ∈ (outline.body ++ rest).head?, isLabelEnd c = true := by
  intro c hmem
  cases outline <;> cases hmem <;> rfl

theorem body_one_append (label : String) (inner : Outline) (rest : List Char) :
    (one label inner).body ++ rest = ',' :: (inner.text ++ '}' :: rest) := by
  simp [body]

theorem body_two_append (label : String) (first second : Outline) (rest : List Char) :
    (two label first second).body ++ rest = ',' :: (first.text ++ ',' :: (second.text ++ '}' :: rest)) := by
  simp [body]

theorem label_eq_and_body_eq {left right : Outline} (hleft : left.IsPlain) (hright : right.IsPlain)
    {rest more : List Char} (h : left.text ++ rest = right.text ++ more) :
    left.label = right.label ∧ left.body ++ rest = right.body ++ more := by
  rw [text_append, text_append] at h
  exact hleft.label.append_inj hright.label (head?_body_append left rest) (head?_body_append right more)
    (List.cons.inj h).2

/-- Where two texts are equal and both start with that of an outline, it is the text of one outline. -/
theorem text_append_inj {left right : Outline} (hleft : left.IsPlain) (hright : right.IsPlain)
    {rest more : List Char} (h : left.text ++ rest = right.text ++ more) : left = right ∧ rest = more := by
  -- brackets are read one after the other, so what follows the text is left open in the induction
  induction left generalizing right rest more with
  | leaf label =>
    obtain ⟨hlabel, hbody⟩ := label_eq_and_body_eq hleft hright h
    cases right with
    | leaf other => exact ⟨congrArg leaf hlabel, (List.cons.inj hbody).2⟩
    | one | two => simp [body] at hbody
  | one label inner ih =>
    obtain ⟨hlabel, hbody⟩ := label_eq_and_body_eq hleft hright h
    cases right with
    | leaf => simp [body] at hbody
    | one other another =>
      rw [body_one_append, body_one_append] at hbody
      obtain ⟨rfl, hclose⟩ := ih hleft.2 hright.2 (List.cons.inj hbody).2
      exact ⟨congrArg (one · inner) hlabel, (List.cons.inj hclose).2⟩
    | two other first second =>
      -- behind the bracket inside, the closing one would have to be a comma
      rw [body_one_append, body_two_append] at hbody
      obtain ⟨-, hclose⟩ := ih hleft.2 hright.2.1 (List.cons.inj hbody).2
      simp at hclose
  | two label first second ihfirst ihsecond =>
    obtain ⟨hlabel, hbody⟩ := label_eq_and_body_eq hleft hright h
    cases right with
    | leaf => simp [body] at hbody
    | one other inner =>
      rw [body_two_append, body_one_append] at hbody
      obtain ⟨-, hclose⟩ := ihfirst hleft.2.1 hright.2 (List.cons.inj hbody).2
      simp at hclose
    | two other another further =>
      rw [body_two_append, body_two_append] at hbody
      obtain ⟨rfl, hsecond⟩ := ihfirst hleft.2.1 hright.2.1 (List.cons.inj hbody).2
      obtain ⟨rfl, hclose⟩ := ihsecond hleft.2.2 hright.2.2 (List.cons.inj hsecond).2
      exact ⟨congrArg (two · first second) hlabel, (List.cons.inj hclose).2⟩

theorem eq_of_text_eq {left right : Outline} (hleft : left.IsPlain) (hright : right.IsPlain)
    (h : left.text = right.text) : left = right :=
  (text_append_inj hleft hright (congrArg (· ++ []) h)).1

/-- An integer or a sign with the signs behind it, each one inside the one before it. -/
def ofSigns (token : Token) : List Token → Outline
  | [] => leaf token.literal
  | sign :: signs => one token.literal (ofSigns sign signs)

theorem isPlain_ofSigns {token : Token} {signs : List Token} (htoken : Abacus.IsPlain token.literal)
    (hsigns : ∀ sign ∈ signs, Abacus.IsPlain sign.literal) : (ofSigns token signs).IsPlain := by
  induction signs generalizing token with
  | nil => exact htoken
  | cons sign signs ih =>
    obtain ⟨hsign, hrest⟩ := List.forall_mem_cons.mp hsigns
    exact ⟨htoken, ih hsign hrest⟩

theorem literals_eq_of_ofSigns_eq {token other : Token} {signs others : List Token}
    (h : ofSigns token signs = ofSigns other others) :
    token.literal = other.literal ∧ List.Forall₂ (fun left right => left.literal = right.literal) signs others := by
  induction signs generalizing token other others with
  | nil =>
    cases others with
    | nil => exact ⟨leaf.inj h, .nil⟩
    | cons => exact Outline.noConfusion h
  | cons sign signs ih =>
    cases others with
    | nil => exact Outline.noConfusion h
    | cons first others =>
      obtain ⟨hliteral, hinner⟩ := one.inj h
      obtain ⟨hsign, hrest⟩ := ih hinner
      exact ⟨hliteral, .cons hsign hrest⟩

end Outline

namespace Expr

def outline : Expr → Outline
  | literal token => .leaf token.literal
  | chain token signs => .ofSigns token signs
  | binary operator left right => .two operator.literal left.outline right.outline

theorem text_ofSigns (token : Token) (signs : List Token) :
    (Outline.ofSigns token signs).text = '{' :: (token.literal.toList ++ ((bracketedSigns signs).toList ++ ['}'])) := by
  induction signs generalizing token with
  | nil => simp [Outline.ofSigns, Outline.text, bracketedSigns]
  | cons sign signs ih => simp [Outline.ofSigns, Outline.text, bracketedSigns, ih]

/-- The canonical form is the text of the outline. -/
theorem toList_render (expr : Expr) : expr.render.toList = expr.outline.text := by
  rw [render_eq_bracketed]
  induction expr with
  | literal token => simp [bracketed, outline, Outline.text]
  | chain token signs => simp [bracketed, outline, text_ofSigns]
  | binary operator left right ihleft ihright => simp [bracketed, outline, Outline.text, ihleft, ihright]

/-- Every chain of an expression has a sign. -/
def ChainsSigned : Expr → Prop
  | literal _ => True
  | chain _ signs => signs ≠ []
  | binary _ left right => left.ChainsSigned ∧ right.ChainsSigned

theorem isPlain_outline {expr : Expr} (h : ∀ token ∈ expr.tokens, IsPlain token.literal) : expr.outline.IsPlain := by
  induction expr with
  | literal token => exact h token List.mem_cons_self
  | chain token signs =>
    obtain ⟨hsigns, htoken⟩ := List.forall_mem_append.mp h
    exact Outline.isPlain_ofSigns (htoken token List.mem_cons_self) hsigns
  | binary operator left right ihleft ihright =>
    obtain ⟨hleft, hrest⟩ := List.forall_mem_append.mp h
    obtain ⟨hoperator, hright⟩ := List.forall_mem_cons.mp hrest
    exact ⟨hoperator, ihleft hleft, ihright hright⟩

theorem parallel_of_outline_eq {left right : Expr} (hleft : left.ChainsSigned) (hright : right.ChainsSigned)
    (h : left.outline = right.outline) : Parallel (fun first second => first.literal = second.literal) left right := by
  induction left generalizing right with
  | literal token =>
    match right with
    | literal other => exact .literal (Outline.leaf.inj h)
    | chain other [] => exact absurd rfl hright
    | chain other (sign :: signs) => exact Outline.noConfusion h
    | binary .. => exact Outline.noConfusion h
  | chain token signs =>
    match signs, right with
    | [], _ => exact absurd rfl hleft
    | sign :: signs, literal other => exact Outline.noConfusion h
    | sign :: signs, chain other others =>
      obtain ⟨hliteral, hsigns⟩ := Outline.literals_eq_of_ofSigns_eq h
      exact .chain hliteral hsigns
    | sign :: signs, binary .. => exact Outline.noConfusion h
  | binary operator first second ihfirst ihsecond =>
    match right with
    | literal other => exact Outline.noConfusion h
    | chain other [] => exact Outline.noConfusion h
    | chain other (sign :: signs) => exact Outline.noConfusion h
    | binary other another further =>
      obtain ⟨hliteral, hfirst, hsecond⟩ := Outline.two.inj h
      exact .binary hliteral (ihfirst hleft.1 hright.1 hfirst) (ihsecond hleft.2 hright.2 hsecond)

/-- Expressions with one canonical form have one shape and the same literals in it. -/
theorem parallel_of_render_eq {left right : Expr} (hleft : left.ChainsSigned) (hright : right.ChainsSigned)
    (hleftPlain : ∀ token ∈ left.tokens, IsPlain token.literal)
    (hrightPlain : ∀ token ∈ right.tokens, IsPlain token.literal) (h : left.render = right.render) :
    Parallel (fun first second => first.literal = second.literal) left right := by
  have htext : left.outline.text = right.outline.text := by
    rw [← toList_render, ← toList_render, h]
  exact parallel_of_outline_eq hleft hright
    (Outline.eq_of_text_eq (isPlain_outline hleftPlain) (isPlain_outline hrightPlain) htext)

theorem Parallel.tokens {related : Token → Token → Prop} {left right : Expr} (h : Parallel related left right) :
    List.Forall₂ related left.tokens right.tokens := by
  induction h with
  | literal h => exact .cons h .nil
  | chain h hsigns => exact List.rel_append hsigns (.cons h .nil)
  | binary h _ _ ihfirst ihsecond => exact List.rel_append ihfirst (.cons h ihsecond)

end Expr

end Abacus
