import Abacus.Fault
import Abacus.Token.Basic

/-!
# Numerals

A numeral is an optional sign, an optional radix mark (`0x`, `0o` or `0b` in either case; none means ten) and
digits of that radix. One underscore may stand between two digits. The digits are gathered into an unsigned word of
64 bits, as long as it does not overflow, and the sign decides whether the word has a value.
-/

namespace Abacus

namespace Numeral

/-- The value of a digit in a radix of at most sixteen. -/
def digit? (radix : Nat) (c : Char) : Option Nat :=
  let value? :=
    if '0' ≤ c ∧ c ≤ '9' then some (c.toNat - '0'.toNat)
    else if 'a' ≤ c ∧ c ≤ 'f' then some (c.toNat - 'a'.toNat + 10)
    else if 'A' ≤ c ∧ c ≤ 'F' then some (c.toNat - 'A'.toNat + 10)
    else none
  value?.filter (· < radix)

def splitSign : List Char → Bool × List Char
  | '-' :: text => (true, text)
  | '+' :: text => (false, text)
  | text => (false, text)

def splitRadix : List Char → Nat × List Char
  | '0' :: 'x' :: digits => (16, digits)
  | '0' :: 'X' :: digits => (16, digits)
  | '0' :: 'o' :: digits => (8, digits)
  | '0' :: 'O' :: digits => (8, digits)
  | '0' :: 'b' :: digits => (2, digits)
  | '0' :: 'B' :: digits => (2, digits)
  | digits => (10, digits)

def hasDoubleUnderscore : List Char → Bool
  | '_' :: '_' :: _ => true
  | _ :: text => hasDoubleUnderscore text
  | [] => false

/-- Whether a text is made of digits, with single underscores between digits. -/
def isSpelled (radix : Nat) (text : List Char) : Bool :=
  !(text.isEmpty || text.head? == some '_' || text.getLast? == some '_' || hasDoubleUnderscore text ||
    !text.all fun c => c == '_' || (digit? radix c).isSome)

def checkedMul (left right : UInt64) : Option UInt64 :=
  if left.toNat * right.toNat < UInt64.size then some (left * right) else none

def checkedAdd (left right : UInt64) : Option UInt64 :=
  if left.toNat + right.toNat < UInt64.size then some (left + right) else none

/-- The word with one more digit behind those that make up `value`, unless it overflows. -/
def pushDigit? (radix : Nat) (value : UInt64) (digit : Nat) : Option UInt64 :=
  (checkedMul value (.ofNat radix)).bind fun product => checkedAdd product (.ofNat digit)

/-- Gathers digits behind those that make up `value`. -/
def gather? (radix : Nat) (value : UInt64) : List Char → Option UInt64
  | [] => some value
  | c :: text =>
    match (digit? radix c).bind (pushDigit? radix value) with
    | some value => gather? radix value text
    | none => none

/-- The word that the digits of a numeral without its sign write. -/
def word? (text : List Char) : Option UInt64 :=
  let (radix, digits) := splitRadix text
  if isSpelled radix digits then gather? radix 0 (digits.filter (· != '_')) else none

/-- The value of a word behind a sign. The least value has no positive counterpart. -/
def signed? (negative : Bool) (word : UInt64) : Option Int64 :=
  if negative then
    if word > Int64.maxValue.toUInt64 + 1 then none else some (-word.toInt64)
  else if word ≤ Int64.maxValue.toUInt64 then some word.toInt64
  else none

-- Irreducible: unification would otherwise run the reader on literals that are not known.
@[irreducible]
def value? (text : List Char) : Option Int64 :=
  let (negative, rest) := splitSign text
  (word? rest).bind (signed? negative)

end Numeral

def Token.value (token : Token) : Except Fault Int64 :=
  match Numeral.value? token.literal.toList with
  | some value => .ok value
  | none => .error ⟨.invalidLiteral token.literal, token.position⟩

end Abacus
