import Abacus.Text.Bytes
import Abacus.Token.Basic

/-!
# Lexemes

A lexeme is the longest token text at the front of a source, together with what follows it. `Lexeme.read`
finds it from the first character: a word, a run of digits, a quoted text, one punctuation character, or one
character that starts no token. The covered text and the rest always make up what was read, and the covered
text is never empty.
-/

namespace Abacus

def isGap (c : Char) : Bool :=
  c == ' ' || c == '\t' || c == '\n' || c == '\r'

def isWordStart (c : Char) : Bool :=
  c.isAlpha || c == '_'

def isWordPart (c : Char) : Bool :=
  c.isAlphanum || c == '_'

def isUnquoted (c : Char) : Bool :=
  c != '"'

structure Lexeme where
  kind : TokenKind
  literal : String
  covered : List Char
  rest : List Char

namespace Lexeme

def size (lexeme : Lexeme) : Nat :=
  Text.byteLength lexeme.covered

def token (lexeme : Lexeme) (offset : Nat) : Token :=
  ⟨lexeme.kind, lexeme.literal, .ofOffset offset lexeme.size⟩

/-- The longest word from its first character on. -/
def word (first : Char) (text : List Char) : Lexeme :=
  let covered := first :: text.takeWhile isWordPart
  let literal := String.ofList covered
  ⟨.ofWord literal, literal, covered, text.dropWhile isWordPart⟩

/-- The longest run of digits from its first digit on. -/
def digits (first : Char) (text : List Char) : Lexeme :=
  let covered := first :: text.takeWhile Char.isDigit
  ⟨.integer, String.ofList covered, covered, text.dropWhile Char.isDigit⟩

/-- A quoted text after its opening quote. It has no escapes, and without a closing quote it runs to the end. -/
def quoted (text : List Char) : Lexeme :=
  let inner := text.takeWhile isUnquoted
  match text.dropWhile isUnquoted with
  | [] => ⟨.quotedText, String.ofList inner, '"' :: inner, []⟩
  | closing :: rest => ⟨.quotedText, String.ofList inner, '"' :: (inner ++ [closing]), rest⟩

def single (kind : TokenKind) (c : Char) (text : List Char) : Lexeme :=
  ⟨kind, String.singleton c, [c], text⟩

/-- The lexeme that starts with a given character, which is no gap. -/
def read (first : Char) (text : List Char) : Lexeme :=
  if isWordStart first then word first text
  else if first.isDigit then digits first text
  else if first = '"' then quoted text
  else single ((TokenKind.ofPunctuation? first).getD .illegal) first text

theorem covered_append_rest (first : Char) (text : List Char) :
    (read first text).covered ++ (read first text).rest = first :: text := by
  unfold read
  split
  · simp [word]
  · split
    · simp [digits]
    · split
      · rename_i hquote
        subst hquote
        have hsplit := List.takeWhile_append_dropWhile (p := isUnquoted) (l := text)
        unfold quoted
        split
        · rename_i hrest
          rw [hrest] at hsplit
          simpa using hsplit
        · rename_i closing rest hrest
          rw [hrest] at hsplit
          simpa using hsplit
      · simp [single]

theorem covered_ne_nil (first : Char) (text : List Char) : (read first text).covered ≠ [] := by
  unfold read
  split
  · simp [word]
  · split
    · simp [digits]
    · split
      · unfold quoted
        split <;> simp
      · simp [single]

theorem length_rest_lt (first : Char) (text : List Char) :
    (read first text).rest.length < (first :: text).length := by
  have hsplit := congrArg List.length (covered_append_rest first text)
  have hcovered := List.length_pos_iff.mpr (covered_ne_nil first text)
  rw [List.length_append] at hsplit
  omega

end Lexeme

end Abacus
