import Abacus.Proofs.Numeral.Unbounded
import Abacus.Proofs.Token.Lexeme
import Mathlib.Algebra.Group.Nat.Defs

/-!
# Runs of digits as numerals

A run of decimal digits has neither sign nor radix mark nor underscores, so its number is the one that the digits
write in base ten, and it has a value exactly when that number fits. Values are printed as such runs, with a sign in
front if need be, and read back as themselves.
-/

namespace Abacus

namespace Numeral

theorem digit?_of_isDigit {c : Char} (h : c.isDigit = true) : digit? 10 c = some (c.toNat - '0'.toNat) := by
  obtain ⟨hlow, hhigh⟩ := toNat_of_isDigit h
  have hrange : '0' ≤ c ∧ c ≤ '9' := ⟨hlow, hhigh⟩
  have hsmall : c.toNat - 48 < 10 := by omega
  simp [digit?, hrange, hsmall]

theorem digitsFrom?_of_isDigit {text : List Char} (h : ∀ c ∈ text, c.isDigit = true) (value : Nat) :
    digitsFrom? 10 value text = some (Nat.ofDigitChars 10 text value) := by
  induction text generalizing value with
  | nil => rfl
  | cons c text ih =>
    have hdigit := h c List.mem_cons_self
    have hunderscore : ∀ d rest, c = '_' → text = d :: rest → False := by
      rintro d rest rfl -
      exact absurd hdigit (by decide)
    rw [digitsFrom?.eq_3 _ _ _ _ hunderscore, digit?_of_isDigit hdigit, Nat.ofDigitChars_cons, Nat.mul_comm 10]
    apply ih
    intro d hmem
    exact h d (List.mem_cons_of_mem c hmem)

theorem digits?_of_isDigit {text : List Char} (hne : text ≠ []) (h : ∀ c ∈ text, c.isDigit = true) :
    digits? 10 text = some (Nat.ofDigitChars 10 text 0) := by
  cases text with
  | nil => exact absurd rfl hne
  | cons c text =>
    rw [digits?, digit?_of_isDigit (h c List.mem_cons_self), Nat.ofDigitChars_cons, Nat.mul_zero, Nat.zero_add]
    apply digitsFrom?_of_isDigit
    intro d hmem
    exact h d (List.mem_cons_of_mem c hmem)

theorem splitRadix_of_isDigit {text : List Char} (h : ∀ c ∈ text, c.isDigit = true) :
    splitRadix text = (10, text) := by
  unfold splitRadix
  split
  case h_7 => rfl
  all_goals exact absurd (h _ (List.mem_cons_of_mem _ List.mem_cons_self)) (by decide)

theorem magnitude?_of_isDigit {text : List Char} (hne : text ≠ []) (h : ∀ c ∈ text, c.isDigit = true) :
    magnitude? text = some (Nat.ofDigitChars 10 text 0) := by
  rw [magnitude?, splitRadix_of_isDigit h]
  exact digits?_of_isDigit hne h

theorem number?_of_isDigit {text : List Char} (hne : text ≠ []) (h : ∀ c ∈ text, c.isDigit = true) :
    number? text = some (Nat.ofDigitChars 10 text 0 : Int) := by
  unfold number?
  split
  · exact absurd (h _ List.mem_cons_self) (by decide)
  · exact absurd (h _ List.mem_cons_self) (by decide)
  · rw [magnitude?_of_isDigit hne h]
    rfl

/-! ### Numbers as they are printed -/

theorem number?_toString (number : Int) : number? (toString number).toList = some number := by
  have hdigits : ∀ magnitude, ∀ c ∈ Nat.toDigits 10 magnitude, c.isDigit = true := fun magnitude c =>
    Nat.isDigit_of_mem_toDigits (by decide) (by decide)
  cases number with
  | ofNat magnitude =>
    have htext : toString (Int.ofNat magnitude) = toString magnitude := rfl
    rw [htext, Nat.toString_eq_ofList_toDigits, String.toList_ofList,
      number?_of_isDigit Nat.toDigits_ne_nil (hdigits magnitude), Nat.ofDigitChars_ten_toDigits]
    rfl
  | negSucc magnitude =>
    have htext : toString (Int.negSucc magnitude) = "-" ++ toString (magnitude + 1) := rfl
    have hlist : (toString (Int.negSucc magnitude)).toList = '-' :: Nat.toDigits 10 (magnitude + 1) := by
      rw [htext, Nat.toString_eq_ofList_toDigits, String.toList_append]
      exact congrArg ('-' :: ·) String.toList_ofList
    rw [hlist, number?, magnitude?_of_isDigit Nat.toDigits_ne_nil (hdigits _), Nat.ofDigitChars_ten_toDigits]
    rfl

/-- A value reads back from the text in which it is printed. -/
theorem value?_toString (value : Int64) : value? (toString value.toInt).toList = some value := by
  have hfits : Int64.minValue.toInt ≤ value.toInt ∧ value.toInt ≤ Int64.maxValue.toInt :=
    ⟨value.minValue_le_toInt, value.toInt_le⟩
  rw [value?_eq, number?_toString, Option.bind_some, fit?, if_pos hfits, Int64.ofInt_toInt]

end Numeral

def Token.IsDigits (token : Token) : Prop :=
  token.literal.toList ≠ [] ∧ ∀ c ∈ token.literal.toList, c.isDigit = true

def Token.magnitude (token : Token) : Nat :=
  Nat.ofDigitChars 10 token.literal.toList 0

theorem Token.value_of_isDigits {token : Token} (h : token.IsDigits) :
    token.value =
      if 2 ^ 63 ≤ token.magnitude then .error ⟨.invalidLiteral token.literal, token.position⟩
      else .ok (.ofInt token.magnitude) := by
  have hnumber : Numeral.number? token.literal.toList = some (token.magnitude : Int) :=
    Numeral.number?_of_isDigit h.1 h.2
  rw [Token.value, Numeral.value?_eq, hnumber, Option.bind_some, Numeral.fit?, Int64.toInt_minValue,
    Int64.toInt_maxValue]
  by_cases hlarge : 2 ^ 63 ≤ token.magnitude
  · rw [if_pos hlarge, if_neg (by omega)]
  · rw [if_neg hlarge, if_pos (by omega)]

end Abacus
