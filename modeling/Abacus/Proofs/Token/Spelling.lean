import Abacus.Proofs.Token.Lexeme

/-!
# How tokens are spelled

`Lexeme.Spelled` says, kind by kind, which texts a token may be read from and what may follow them: a word and a run
of digits go on as far as they can, a quoted text ends with its closing quote or with the source, and an illegal
character is one that starts nothing else. `Lexeme.read` looks at the first character only, and finds the one
spelling that fits.
-/

namespace Abacus

namespace TokenKind

/-- The character that a kind of punctuation is written with. -/
def mark? : TokenKind → Option Char
  | plus => some '+'
  | minus => some '-'
  | asterisk => some '*'
  | slash => some '/'
  | assign => some '='
  | less => some '<'
  | greater => some '>'
  | comma => some ','
  | colon => some ':'
  | semicolon => some ';'
  | leftParen => some '('
  | rightParen => some ')'
  | leftBrace => some '{'
  | rightBrace => some '}'
  | _ => none

theorem ofPunctuation?_eq_some_iff {c : Char} {kind : TokenKind} :
    ofPunctuation? c = some kind ↔ kind.mark? = some c := by
  constructor
  · intro h
    unfold ofPunctuation? at h
    split at h <;> cases h <;> rfl
  · intro h
    cases kind <;> cases h <;> rfl

/-- The kind of a word: four words are reserved, and any other is an identifier. -/
inductive OfWord : TokenKind → String → Prop
  | function : OfWord functionWord "fn"
  | variable : OfWord bindingWord "var"
  | value : OfWord bindingWord "val"
  | string : OfWord typeWord "string"
  | identifier {word : String} (h : word ∉ ["fn", "var", "val", "string"]) : OfWord identifier word

theorem ofWord_iff {kind : TokenKind} {word : String} : OfWord kind word ↔ ofWord word = kind := by
  constructor
  · rintro (_ | _ | _ | _ | h)
    case identifier =>
      unfold ofWord reserved?
      split <;> first | rfl | simp at h
    all_goals rfl
  · rintro rfl
    unfold ofWord reserved?
    split
    · exact .function
    · exact .variable
    · exact .value
    · exact .string
    · rename_i hfn hvar hval hstring
      exact .identifier (by simp_all)

end TokenKind

/-! ### Classes of characters -/

theorem isGap_eq_false_of_isWordStart {c : Char} (h : isWordStart c = true) : isGap c = false := by
  rw [Bool.eq_false_iff]
  intro hgap
  rcases eq_of_isGap hgap with rfl | rfl | rfl | rfl <;> exact absurd h (by decide)

theorem isGap_eq_false_of_isDigit {c : Char} (h : c.isDigit = true) : isGap c = false := by
  rw [Bool.eq_false_iff]
  intro hgap
  rw [isDigit_eq_false_of_isGap hgap] at h
  exact Bool.false_ne_true h

namespace Lexeme

/-- A text that a token can be read from, with its kind and its literal, in front of the text that follows. -/
inductive Spelled : TokenKind → String → List Char → List Char → Prop
  | digits {first : Char} {more after : List Char} (hfirst : first.isDigit = true)
      (hmore : ∀ c ∈ more, c.isDigit = true) (hafter : ∀ c ∈ after.head?, c.isDigit = false) :
      Spelled .integer (String.ofList (first :: more)) (first :: more) after
  | word {kind : TokenKind} {first : Char} {more after : List Char} (hfirst : isWordStart first = true)
      (hmore : ∀ c ∈ more, isWordPart c = true) (hafter : ∀ c ∈ after.head?, isWordPart c = false)
      (hkind : kind.OfWord (String.ofList (first :: more))) :
      Spelled kind (String.ofList (first :: more)) (first :: more) after
  | closed {inner after : List Char} (hinner : '"' ∉ inner) :
      Spelled .quotedText (String.ofList inner) ('"' :: (inner ++ ['"'])) after
  | unclosed {inner : List Char} (hinner : '"' ∉ inner) :
      Spelled .quotedText (String.ofList inner) ('"' :: inner) []
  | mark {kind : TokenKind} {c : Char} {after : List Char} (hmark : kind.mark? = some c) :
      Spelled kind (String.singleton c) [c] after
  | illegal {c : Char} {after : List Char} (hgap : isGap c = false) (hword : isWordStart c = false)
      (hdigit : c.isDigit = false) (hquote : c ≠ '"') (hmark : ∀ kind : TokenKind, kind.mark? ≠ some c) :
      Spelled .illegal (String.singleton c) [c] after

theorem takeWhile_exact {inClass : Char → Bool} {run : List Char} (after : List Char)
    (hrun : ∀ c ∈ run, inClass c = true) (hafter : ∀ c ∈ after.head?, inClass c = false) :
    (run ++ after).takeWhile inClass = run ∧ (run ++ after).dropWhile inClass = after := by
  rw [List.takeWhile_append_of_pos hrun, List.dropWhile_append_of_pos hrun]
  cases after with
  | nil => simp
  | cons c after =>
    have hc : ¬ inClass c = true := by simp [hafter c rfl]
    rw [List.takeWhile_cons_of_neg hc, List.dropWhile_cons_of_neg hc, List.append_nil]
    exact ⟨rfl, rfl⟩

theorem read_quote (text : List Char) : read '"' text = quoted text := rfl

theorem isUnquoted_of_notMem {inner : List Char} (h : '"' ∉ inner) : ∀ c ∈ inner, isUnquoted c = true := by
  intro c hmem
  simp only [isUnquoted, bne_iff_ne, ne_eq]
  rintro rfl
  exact h hmem

theorem isGap_eq_false_and_read_of_mark {kind : TokenKind} {c : Char} (h : kind.mark? = some c)
    (text : List Char) : isGap c = false ∧ read c text = single kind c text := by
  cases kind <;> cases h <;> exact ⟨rfl, rfl⟩

theorem read_of_unclassed {c : Char} (hword : isWordStart c = false) (hdigit : c.isDigit = false)
    (hquote : c ≠ '"') (text : List Char) :
    read c text = single ((TokenKind.ofPunctuation? c).getD .illegal) c text := by
  rw [read, if_neg (by simp [hword]), if_neg (by simp [hdigit]), if_neg hquote]

/-- Only one lexeme is spelled at the front of a text, and it is the one that is read. -/
theorem Spelled.read_eq {kind : TokenKind} {literal : String} {covered after : List Char}
    (h : Spelled kind literal covered after) {c : Char} {text : List Char} (hsplit : c :: text = covered ++ after) :
    isGap c = false ∧ read c text = ⟨kind, literal, covered, after⟩ := by
  cases h with
  | digits hfirst hmore hafter =>
    rw [List.cons_append] at hsplit
    obtain ⟨rfl, rfl⟩ := List.cons.inj hsplit
    obtain ⟨htake, hdrop⟩ := takeWhile_exact after hmore hafter
    refine ⟨isGap_eq_false_of_isDigit hfirst, ?_⟩
    rw [read_of_isDigit hfirst, Lexeme.digits, htake, hdrop]
  | word hfirst hmore hafter hkind =>
    rw [List.cons_append] at hsplit
    obtain ⟨rfl, rfl⟩ := List.cons.inj hsplit
    obtain ⟨htake, hdrop⟩ := takeWhile_exact after hmore hafter
    refine ⟨isGap_eq_false_of_isWordStart hfirst, ?_⟩
    rw [read, if_pos hfirst, Lexeme.word, htake, hdrop, TokenKind.ofWord_iff.mp hkind]
  | closed hinner =>
    rw [List.cons_append, List.append_assoc, List.singleton_append] at hsplit
    obtain ⟨rfl, rfl⟩ := List.cons.inj hsplit
    obtain ⟨htake, hdrop⟩ :=
      takeWhile_exact ('"' :: after) (isUnquoted_of_notMem hinner) (by simp [isUnquoted])
    refine ⟨rfl, ?_⟩
    rw [read_quote, quoted, htake, hdrop]
  | unclosed hinner =>
    rw [List.append_nil] at hsplit
    obtain ⟨rfl, rfl⟩ := List.cons.inj hsplit
    obtain ⟨htake, hdrop⟩ := takeWhile_exact [] (isUnquoted_of_notMem hinner) (by simp)
    rw [List.append_nil] at htake hdrop
    refine ⟨rfl, ?_⟩
    rw [read_quote, quoted, htake, hdrop]
  | mark hmark =>
    obtain ⟨rfl, rfl⟩ := List.cons.inj hsplit
    exact isGap_eq_false_and_read_of_mark hmark text
  | illegal hgap hword hdigit hquote hmark =>
    obtain ⟨rfl, rfl⟩ := List.cons.inj hsplit
    have hnone : TokenKind.ofPunctuation? c = none := by
      rw [Option.eq_none_iff_forall_ne_some]
      intro kind hkind
      exact hmark kind (TokenKind.ofPunctuation?_eq_some_iff.mp hkind)
    refine ⟨hgap, ?_⟩
    rw [read_of_unclassed hword hdigit hquote, hnone]
    rfl

theorem head?_dropWhile {inClass : Char → Bool} (text : List Char) :
    ∀ c ∈ (text.dropWhile inClass).head?, inClass c = false := by
  intro c hhead
  have := List.head?_dropWhile_not inClass text
  simp_all

theorem forall_mem_takeWhile {inClass : Char → Bool} (text : List Char) :
    ∀ c ∈ text.takeWhile inClass, inClass c = true :=
  List.all_eq_true.mp List.all_takeWhile

theorem spelled_quoted (text : List Char) :
    Spelled (quoted text).kind (quoted text).literal (quoted text).covered (quoted text).rest := by
  have hinner : '"' ∉ text.takeWhile isUnquoted := by
    intro hmem
    exact absurd (forall_mem_takeWhile text _ hmem) (by decide)
  unfold quoted
  split
  · exact .unclosed hinner
  · rename_i closing rest hrest
    have hclosing : isUnquoted closing = false := head?_dropWhile text closing (by rw [hrest]; rfl)
    obtain rfl : closing = '"' := by simpa [isUnquoted] using hclosing
    exact .closed hinner

/-- What is read from a character that is no gap is spelled as its kind is. -/
theorem spelled_read {c : Char} (hgap : isGap c = false) (text : List Char) :
    Spelled (read c text).kind (read c text).literal (read c text).covered (read c text).rest := by
  by_cases hword : isWordStart c = true
  · rw [read, if_pos hword]
    exact .word hword (forall_mem_takeWhile text) (head?_dropWhile text) (TokenKind.ofWord_iff.mpr rfl)
  · by_cases hdigit : c.isDigit = true
    · rw [read_of_isDigit hdigit]
      exact .digits hdigit (forall_mem_takeWhile text) (head?_dropWhile text)
    · by_cases hquote : c = '"'
      · subst hquote
        exact spelled_quoted text
      · rw [read_of_unclassed (by simpa using hword) (by simpa using hdigit) hquote]
        cases hkind : TokenKind.ofPunctuation? c with
        | some kind => exact .mark (TokenKind.ofPunctuation?_eq_some_iff.mp hkind)
        | none =>
          refine .illegal hgap (by simpa using hword) (by simpa using hdigit) hquote ?_
          intro kind hmark
          rw [TokenKind.ofPunctuation?_eq_some_iff.mpr hmark] at hkind
          simp at hkind

end Lexeme

end Abacus
