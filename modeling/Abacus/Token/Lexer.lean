import Abacus.Token.Lexeme

/-!
# Token streams

`tokenize` lists the tokens of a source, of which the last one, and only that one, stands for the end of the
input. A `Lexer` yields the same tokens one at a time and may be moved by hand in between, also to a place where
no character starts; there it has nothing to read. Its offset is a 64-bit number, so a long enough move leads
back to an earlier place.
-/

namespace Abacus

namespace Token

/-- Lists the tokens of a text that starts at an offset, in front of which `read` has been listed backwards. -/
def scan (offset : Nat) (text : List Char) (read : List Token) : List Token :=
  match text with
  | [] => (endOfInput (.ofOffset offset) :: read).reverse
  | c :: text =>
    if isGap c then scan (offset + c.utf8Size) text read
    else
      let lexeme := Lexeme.read c text
      scan (offset + lexeme.size) lexeme.rest (lexeme.token offset :: read)
termination_by text.length
decreasing_by
  · simp
  · exact Lexeme.length_rest_lt c text

end Token

/-- The tokens of a source, with the end of the input as the last one. -/
def tokenize (source : String) : List Token :=
  Token.scan 0 source.toList []

/-- A place in a source from which tokens are read. The text `ahead` starts at the last character boundary that
is not past the place, and the place lies `skip` bytes behind that boundary. -/
structure Lexer where
  source : List Char
  offset : Nat
  skip : Nat
  ahead : List Char
  finished : Bool
  settled : Text.settle offset source = (skip, ahead)

namespace Lexer

def atOffset (source : List Char) (offset : Nat) (finished : Bool) : Lexer :=
  let place := Text.settle offset source
  ⟨source, offset, place.1, place.2, finished, rfl⟩

def ofSource (source : String) : Lexer :=
  atOffset source.toList 0 false

/-- The number of offsets: they are counted in 64 bits, and behind the last one counting starts again. -/
def offsetCount : Nat := UInt64.size

/-- Moves a lexer by a number of bytes, round past the last offset if need be. -/
def advance (lexer : Lexer) (count : Nat) : Lexer :=
  atOffset lexer.source ((lexer.offset + count) % offsetCount) lexer.finished

def atEnd (lexer : Lexer) : Bool :=
  lexer.ahead.isEmpty

/-- The source text that is left, unless the place lies inside a character or past the end. -/
def remainder? (lexer : Lexer) : Option (List Char) :=
  if lexer.skip = 0 then some lexer.ahead else none

/-- A token, the offset and the text behind it, and whether it is the end of the input. -/
structure Found where
  token : Token
  offset : Nat
  rest : List Char
  isEnd : Bool

/-- Finds the first token of a text that starts at an offset. -/
def find (offset : Nat) : List Char → Found
  | [] => ⟨.endOfInput (.ofOffset offset), offset, [], true⟩
  | c :: text =>
    if isGap c then find (offset + c.utf8Size) text
    else
      let lexeme := Lexeme.read c text
      ⟨lexeme.token offset, offset + lexeme.size, lexeme.rest, false⟩

theorem settle_find {source : List Char} {offset : Nat} {text : List Char}
    (h : Text.settle offset source = (0, text)) :
    Text.settle (find offset text).offset source = (0, (find offset text).rest) := by
  induction text generalizing offset with
  | nil => exact h
  | cons c text ih =>
    unfold find
    split
    · have hsettled := @Text.settle_of_settle offset source [c] text h
      rw [Text.byteLength_cons, Text.byteLength_nil, Nat.add_zero] at hsettled
      exact ih hsettled
    · rw [← Lexeme.covered_append_rest c text] at h
      exact Text.settle_of_settle h

inductive Step where
  | token (token : Token) (lexer : Lexer)
  | exhausted
  | misaligned

/-- Asks a lexer for the next token. After the end of the input there is none, and from inside a character
none can be read. -/
def next (lexer : Lexer) : Step :=
  if lexer.finished then .exhausted
  else if lexer.atEnd then
    .token (.endOfInput (.ofOffset lexer.offset)) { lexer with finished := true }
  else if haligned : lexer.skip = 0 then
    let found := find lexer.offset lexer.ahead
    .token found.token ⟨lexer.source, found.offset, 0, found.rest, found.isEnd,
      settle_find (haligned ▸ lexer.settled)⟩
  else .misaligned

/-- An upper bound for the number of tokens that a lexer still yields. -/
def budget (lexer : Lexer) : Nat :=
  if lexer.finished then 0 else lexer.ahead.length + 1

theorem isEnd_or_length_rest_find_lt (offset : Nat) (text : List Char) :
    (find offset text).isEnd = true ∨ (find offset text).rest.length < text.length := by
  induction text generalizing offset with
  | nil => exact Or.inl rfl
  | cons c text ih =>
    unfold find
    split
    · exact (ih _).imp_right Nat.lt_succ_of_lt
    · exact Or.inr (Lexeme.length_rest_lt c text)

theorem budget_next_lt {lexer rest : Lexer} {token : Token} (h : lexer.next = .token token rest) :
    rest.budget < lexer.budget := by
  unfold next at h
  split at h
  · simp at h
  · rename_i hfinished
    split at h
    · obtain ⟨_, rfl⟩ := Step.token.inj h
      simp [budget, hfinished]
    · split at h
      · obtain ⟨_, rfl⟩ := Step.token.inj h
        rcases isEnd_or_length_rest_find_lt lexer.offset lexer.ahead with hend | hshorter
        · simp [budget, hfinished, hend]
        · simp only [budget, hfinished]
          split
          · simp
          · simpa using hshorter
      · simp at h

/-- Reads tokens until there is none left, behind those already `read` backwards. The tokens are missing when
the lexer stands inside a character. -/
def drain (lexer : Lexer) (read : List Token) : Option (List Token) × Lexer :=
  match _h : lexer.next with
  | .token token rest => drain rest (token :: read)
  | .exhausted => (some read.reverse, lexer)
  | .misaligned => (none, lexer)
termination_by lexer.budget
decreasing_by exact budget_next_lt _h

/-- All tokens that a lexer still yields, and the lexer after them. -/
def rest (lexer : Lexer) : Option (List Token) × Lexer :=
  lexer.drain []

end Lexer

end Abacus
