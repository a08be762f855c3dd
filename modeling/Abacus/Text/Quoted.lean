import Abacus.Text.Unprintable

/-!
# Quoted text

A text between double quotes, on one line, in which every character can be seen: a quote and a backslash
stand behind a backslash, the usual controls have a letter, and any other unprintable character is written by
its code point.
-/

namespace Abacus.Text

/-- The escape letter of a character that has one. -/
def escapeLetter? : Char → Option Char
  | '\x00' => some '0'
  | '\t' => some 't'
  | '\r' => some 'r'
  | '\n' => some 'n'
  | '\\' => some '\\'
  | '"' => some '"'
  | _ => none

/-- A code point in lower-case hexadecimal, without leading zeros. -/
def hexadecimal (point : Nat) : String :=
  String.ofList (Nat.toDigits 16 point)

/-- A character as it stands between the quotes. -/
def quoteChar (c : Char) : String :=
  match escapeLetter? c with
  | some letter => String.ofList ['\\', letter]
  | none =>
    if isUnprintable c then "\\u\x7b" ++ hexadecimal c.toNat ++ "\x7d" else String.singleton c

def quote (text : String) : String :=
  (text.toList.foldl (fun written c => written ++ quoteChar c) "\"").push '"'

end Abacus.Text
