import Abacus.Proofs.Numeral.Unbounded
import Mathlib.Data.List.Forall2
import Mathlib.Data.Nat.Digits.Defs

/-!
# How numbers are written

The texts that write a number, said without going through them character by character: a sign, the mark of a radix,
and a text that underscores cut into parts, each of them digits and none of them empty. Reading such a text goes from
left to right and carries the value along. Behind a digit it has seen the start of a part, so the first part of what is
left may be empty; this is all that tells the text behind a digit from a text that begins.
-/

namespace Abacus

namespace Numeral

/-- A character that stands for a digit of a radix, as a letter in either case. -/
def DigitOf (radix : Nat) (c : Char) (digit : Nat) : Prop :=
  digit < radix ∧ (c = Nat.digitChar digit ∨ c = (Nat.digitChar digit).toUpper)

/-- A text that underscores cut into runs of digits, none of them empty. -/
structure DigitsOf (radix : Nat) (text : List Char) (digits : List Nat) : Prop where
  parts_ne_nil : ∀ part ∈ text.splitOn '_', part ≠ []
  digitOf : List.Forall₂ (DigitOf radix) (text.splitOn '_').flatten digits

/-- The signs, each with the factor it stands for. -/
def signs : List (List Char × Int) :=
  [([], 1), (['+'], 1), (['-'], -1)]

/-- The marks of the radices. Ten needs none. -/
def marks : List (List Char × Nat) :=
  [([], 10), (['0', 'x'], 16), (['0', 'X'], 16), (['0', 'o'], 8), (['0', 'O'], 8), (['0', 'b'], 2), (['0', 'B'], 2)]

/-- A text that writes a number: a sign, the mark of a radix and digits of that radix, the highest first. -/
def Writes (text : List Char) (number : Int) : Prop :=
  ∃ sign ∈ signs, ∃ mark ∈ marks, ∃ body digits,
    text = sign.1 ++ mark.1 ++ body ∧ DigitsOf mark.2 body digits ∧
      number = sign.2 * (Nat.ofDigits mark.2 digits.reverse : Nat)

/-! ### Digits -/

theorem digit?_eq_some_iff_lt {radix digit : Nat} {c : Char} (hradix : radix ≤ 16) :
    digit? radix c = some digit ↔ digit < radix ∧ digit? 16 c = some digit := by
  simp only [digit?, Option.filter_eq_some_iff, decide_eq_true_eq]
  constructor
  · rintro ⟨hvalue, hlt⟩
    exact ⟨hlt, hvalue, by omega⟩
  · rintro ⟨hlt, hvalue, -⟩
    exact ⟨hvalue, hlt⟩

/-- A character between two bounds stands where its distance from the first of them says. -/
theorem eq_of_between {low high c : Char} {table : Nat → Char} (h : low ≤ c ∧ c ≤ high)
    (htable : ∀ n ≤ high.toNat - low.toNat, Char.ofNat (low.toNat + n) = table n) :
    c = table (c.toNat - low.toNat) := by
  have hlow : low.toNat ≤ c.toNat := h.1
  have hhigh : c.toNat ≤ high.toNat := h.2
  calc c = Char.ofNat c.toNat := (Char.ofNat_toNat c).symm
    _ = Char.ofNat (low.toNat + (c.toNat - low.toNat)) := by rw [Nat.add_sub_cancel' hlow]
    _ = table (c.toNat - low.toNat) := htable _ (by omega)

theorem eq_digitChar_of_digit? {digit : Nat} {c : Char} (h : digit? 16 c = some digit) :
    c = Nat.digitChar digit ∨ c = (Nat.digitChar digit).toUpper := by
  obtain ⟨hvalue, -⟩ := Option.filter_eq_some_iff.mp h
  have htable : ∀ n ≤ 9, Char.ofNat ('0'.toNat + n) = Nat.digitChar n := by decide
  have hlower : ∀ n ≤ 5, Char.ofNat ('a'.toNat + n) = Nat.digitChar (n + 10) := by decide
  have hupper : ∀ n ≤ 5, Char.ofNat ('A'.toNat + n) = (Nat.digitChar (n + 10)).toUpper := by decide
  split at hvalue
  case isTrue hdecimal =>
    obtain rfl := Option.some.inj hvalue
    exact Or.inl (eq_of_between hdecimal htable)
  split at hvalue
  case isTrue hsmall =>
    obtain rfl := Option.some.inj hvalue
    exact Or.inl (eq_of_between hsmall hlower)
  split at hvalue
  case isTrue hcapital =>
    obtain rfl := Option.some.inj hvalue
    exact Or.inr (eq_of_between hcapital hupper)
  simp at hvalue

theorem digit?_eq_some_iff {radix digit : Nat} {c : Char} (hradix : radix ≤ 16) :
    digit? radix c = some digit ↔ DigitOf radix c digit := by
  have htable : ∀ n < 16, digit? 16 (Nat.digitChar n) = some n := by decide
  have hupper : ∀ n < 16, digit? 16 (Nat.digitChar n).toUpper = some n := by decide
  rw [digit?_eq_some_iff_lt hradix, DigitOf]
  refine and_congr_right ?_
  intro hlt
  constructor
  · exact eq_digitChar_of_digit?
  · rintro (rfl | rfl)
    · exact htable digit (by omega)
    · exact hupper digit (by omega)

/-! ### Digits and underscores -/

/-- What may stand behind a digit: a text of the same form, but its first part may be empty. -/
structure BehindDigit (radix : Nat) (text : List Char) (digits : List Nat) : Prop where
  parts_ne_nil : ∀ part ∈ (text.splitOn '_').tail, part ≠ []
  digitOf : List.Forall₂ (DigitOf radix) (text.splitOn '_').flatten digits

section Digits

variable {radix digit : Nat} {c : Char} {text : List Char} {digits : List Nat}

theorem splitOn_underscore (text : List Char) : ('_' :: text).splitOn '_' = [] :: text.splitOn '_' := by
  rw [List.splitOn, List.splitOnP_cons_eq_if_modifyHead, if_pos (beq_self_eq_true '_'), List.splitOn]

theorem exists_splitOn_cons (hc : c ≠ '_') (text : List Char) :
    ∃ first parts, text.splitOn '_' = first :: parts ∧ (c :: text).splitOn '_' = (c :: first) :: parts := by
  obtain ⟨first, parts, hparts⟩ := List.exists_cons_of_ne_nil (List.splitOn_ne_nil '_' text)
  refine ⟨first, parts, hparts, ?_⟩
  rw [List.splitOn] at hparts
  rw [List.splitOn, List.splitOnP_cons_eq_if_modifyHead, if_neg (by simpa using hc), hparts, List.modifyHead_cons]

theorem behindDigit_nil_iff : BehindDigit radix [] digits ↔ digits = [] := by
  constructor
  · rintro ⟨-, hdigits⟩
    simpa using hdigits
  · rintro rfl
    exact ⟨by simp, by simp⟩

theorem behindDigit_underscore_iff : BehindDigit radix ('_' :: text) digits ↔ DigitsOf radix text digits := by
  constructor
  · rintro ⟨hparts, hdigits⟩
    rw [splitOn_underscore] at hparts hdigits
    exact ⟨hparts, hdigits⟩
  · rintro ⟨hparts, hdigits⟩
    constructor
    · rwa [splitOn_underscore]
    · rwa [splitOn_underscore]

theorem behindDigit_cons_iff (hc : c ≠ '_') :
    BehindDigit radix (c :: text) digits ↔
      ∃ digit rest, digits = digit :: rest ∧ DigitOf radix c digit ∧ BehindDigit radix text rest := by
  obtain ⟨first, parts, htext, hcons⟩ := exists_splitOn_cons hc text
  constructor
  · rintro ⟨hparts, hdigits⟩
    rw [hcons] at hparts hdigits
    obtain ⟨digit, rest, hdigit, hrest, rfl⟩ := List.forall₂_cons_left_iff.mp hdigits
    refine ⟨digit, rest, rfl, hdigit, ?_, ?_⟩
    · rwa [htext]
    · rwa [htext]
  · rintro ⟨digit, rest, rfl, hdigit, hparts, hrest⟩
    rw [htext] at hparts hrest
    constructor
    · rwa [hcons]
    · rw [hcons]
      exact .cons hdigit hrest

theorem not_digitOf_underscore (hradix : radix ≤ 16) : ¬ DigitOf radix '_' digit := by
  intro h
  have hdigit := ((digit?_eq_some_iff_lt hradix).mp ((digit?_eq_some_iff hradix).mpr h)).2
  exact absurd hdigit (by simp [digit?])

/-- Digits begin with a digit. -/
theorem digitsOf_cons_iff (hradix : radix ≤ 16) :
    DigitsOf radix (c :: text) digits ↔
      ∃ digit rest, digits = digit :: rest ∧ DigitOf radix c digit ∧ BehindDigit radix text rest := by
  by_cases hc : c = '_'
  · rw [hc]
    constructor
    · rintro ⟨hparts, -⟩
      rw [splitOn_underscore] at hparts
      exact absurd rfl (hparts [] List.mem_cons_self)
    · rintro ⟨digit, rest, -, hdigit, -⟩
      exact absurd hdigit (not_digitOf_underscore hradix)
  · rw [← behindDigit_cons_iff hc]
    obtain ⟨first, parts, -, hcons⟩ := exists_splitOn_cons hc text
    constructor
    · rintro ⟨hparts, hdigits⟩
      refine ⟨?_, hdigits⟩
      intro part hmem
      exact hparts part (List.mem_of_mem_tail hmem)
    · rintro ⟨hparts, hdigits⟩
      refine ⟨?_, hdigits⟩
      rw [hcons] at hparts ⊢
      exact List.forall_mem_cons.mpr ⟨List.cons_ne_nil c first, hparts⟩

theorem not_digitsOf_nil : ¬ DigitsOf radix [] digits := by
  rintro ⟨hparts, -⟩
  exact hparts [] (by simp) rfl

/-- The value of digits that are read behind a value. -/
def carry (radix value : Nat) (digits : List Nat) : Nat :=
  digits.foldl (fun value digit => value * radix + digit) value

theorem carry_zero (radix : Nat) (digits : List Nat) : carry radix 0 digits = Nat.ofDigits radix digits.reverse := by
  rw [Nat.ofDigits_eq_foldr, List.foldr_reverse, carry]
  congr 1
  funext value digit
  rw [Nat.mul_comm, Nat.add_comm, Nat.cast_id]

theorem exists_carry_cons_iff {value number : Nat} (h : DigitOf radix c digit) (hradix : radix ≤ 16) :
    (∃ digits, (∃ digit rest, digits = digit :: rest ∧ DigitOf radix c digit ∧ BehindDigit radix text rest) ∧
        number = carry radix value digits) ↔
      ∃ rest, BehindDigit radix text rest ∧ number = carry radix (value * radix + digit) rest := by
  constructor
  · rintro ⟨_, ⟨other, rest, rfl, hother, hrest⟩, rfl⟩
    have hsame : some digit = some other := by
      rw [← (digit?_eq_some_iff hradix).mpr h, (digit?_eq_some_iff hradix).mpr hother]
    obtain rfl := Option.some.inj hsame
    exact ⟨rest, hrest, rfl⟩
  · rintro ⟨rest, hrest, rfl⟩
    exact ⟨digit :: rest, ⟨digit, rest, rfl, h, hrest⟩, rfl⟩

/-- Reading on behind a digit finds the digits of what stands there, and brings the value along. -/
theorem digitsFrom?_eq_some_iff (hradix : radix ≤ 16) {value number : Nat} :
    digitsFrom? radix value text = some number ↔
      ∃ digits, BehindDigit radix text digits ∧ number = carry radix value digits := by
  fun_induction digitsFrom? radix value text with
  | case1 value => simp [behindDigit_nil_iff, carry, eq_comm]
  | case2 value c text digit hdigit ih =>
    have hc := (digit?_eq_some_iff hradix).mp hdigit
    simp only [behindDigit_underscore_iff, digitsOf_cons_iff hradix]
    rw [ih, exists_carry_cons_iff hc hradix]
  | case3 value c text hdigit =>
    simp only [behindDigit_underscore_iff, digitsOf_cons_iff hradix, ← digit?_eq_some_iff hradix, hdigit]
    simp
  | case4 value c text hunderscore digit hdigit ih =>
    have hc := (digit?_eq_some_iff hradix).mp hdigit
    have hne : c ≠ '_' := by
      rintro rfl
      exact not_digitOf_underscore hradix hc
    simp only [behindDigit_cons_iff hne]
    rw [ih, exists_carry_cons_iff hc hradix]
  | case5 value c text hunderscore hdigit =>
    by_cases hne : c = '_'
    · cases text with
      | nil => simp [hne, behindDigit_underscore_iff, not_digitsOf_nil]
      | cons other text => exact absurd rfl (hunderscore other text hne)
    · simp only [behindDigit_cons_iff hne, ← digit?_eq_some_iff hradix, hdigit]
      simp

theorem digits?_eq_some_iff (hradix : radix ≤ 16) {number : Nat} :
    digits? radix text = some number ↔
      ∃ digits, DigitsOf radix text digits ∧ number = Nat.ofDigits radix digits.reverse := by
  simp only [← carry_zero]
  cases text with
  | nil => simp [digits?, not_digitsOf_nil]
  | cons c text =>
    simp only [digitsOf_cons_iff hradix]
    rw [digits?]
    cases hdigit : digit? radix c with
    | none => simp [← digit?_eq_some_iff hradix, hdigit]
    | some digit =>
      rw [exists_carry_cons_iff ((digit?_eq_some_iff hradix).mp hdigit) hradix, Nat.zero_mul, Nat.zero_add]
      exact digitsFrom?_eq_some_iff hradix

end Digits

/-! ### Radix and sign -/

theorem radix_le_of_mem_marks : ∀ mark ∈ marks, mark.2 ≤ 16 := by decide

theorem exists_mark (text : List Char) :
    ∃ mark ∈ marks, text = mark.1 ++ (splitRadix text).2 ∧ mark.2 = (splitRadix text).1 := by
  unfold splitRadix
  split <;> simp [marks]

/-- A letter that marks a radix is no digit in the radix ten. -/
theorem not_digitsOf_ten {c letter : Char} {text : List Char} {digits : List Nat} (hletter : letter ≠ '_')
    (hdigit : digit? 10 letter = none) : ¬ DigitsOf 10 (c :: letter :: text) digits := by
  intro h
  obtain ⟨-, rest, -, -, hrest⟩ := (digitsOf_cons_iff (by decide)).mp h
  obtain ⟨digit, -, -, hof, -⟩ := (behindDigit_cons_iff hletter).mp hrest
  have hsome := (digit?_eq_some_iff (by decide)).mpr hof
  simp [hdigit] at hsome

theorem splitRadix_of_digitsOf {text : List Char} {digits : List Nat} (h : DigitsOf 10 text digits) :
    splitRadix text = (10, text) := by
  unfold splitRadix
  split
  case h_7 => rfl
  all_goals exact absurd h (not_digitsOf_ten (by decide) (by decide))

theorem splitRadix_append {mark : List Char × Nat} (hmark : mark ∈ marks) {body : List Char} {digits : List Nat}
    (h : DigitsOf mark.2 body digits) : splitRadix (mark.1 ++ body) = (mark.2, body) := by
  simp only [marks, List.mem_cons, List.not_mem_nil, or_false] at hmark
  rcases hmark with rfl | rfl | rfl | rfl | rfl | rfl | rfl
  · exact splitRadix_of_digitsOf h
  all_goals rfl

theorem magnitude?_eq_some_iff {text : List Char} {number : Nat} :
    magnitude? text = some number ↔
      ∃ mark ∈ marks, ∃ body digits,
        text = mark.1 ++ body ∧ DigitsOf mark.2 body digits ∧ number = Nat.ofDigits mark.2 digits.reverse := by
  constructor
  · intro h
    obtain ⟨mark, hmark, htext, hradix⟩ := exists_mark text
    have hread : digits? mark.2 (splitRadix text).2 = some number := by rwa [hradix]
    rw [digits?_eq_some_iff (radix_le_of_mem_marks mark hmark)] at hread
    obtain ⟨digits, hdigits, hnumber⟩ := hread
    exact ⟨mark, hmark, _, digits, htext, hdigits, hnumber⟩
  · rintro ⟨mark, hmark, body, digits, rfl, hdigits, hnumber⟩
    rw [magnitude?, splitRadix_append hmark hdigits, digits?_eq_some_iff (radix_le_of_mem_marks mark hmark)]
    exact ⟨digits, hdigits, hnumber⟩

theorem writes_iff_magnitude? {text : List Char} {number : Int} :
    Writes text number ↔
      ∃ sign ∈ signs, ∃ rest magnitude,
        text = sign.1 ++ rest ∧ magnitude? rest = some magnitude ∧ number = sign.2 * (magnitude : Int) := by
  constructor
  · rintro ⟨sign, hsign, mark, hmark, body, digits, htext, hdigits, hnumber⟩
    have hmagnitude : magnitude? (mark.1 ++ body) = some (Nat.ofDigits mark.2 digits.reverse) :=
      magnitude?_eq_some_iff.mpr ⟨mark, hmark, body, digits, rfl, hdigits, rfl⟩
    rw [List.append_assoc] at htext
    exact ⟨sign, hsign, _, _, htext, hmagnitude, hnumber⟩
  · rintro ⟨sign, hsign, rest, magnitude, rfl, hmagnitude, hnumber⟩
    obtain ⟨mark, hmark, body, digits, rfl, hdigits, rfl⟩ := magnitude?_eq_some_iff.mp hmagnitude
    exact ⟨sign, hsign, mark, hmark, body, digits, (List.append_assoc _ _ _).symm, hdigits, hnumber⟩

/-- A sign is taken off a text before its magnitude is read, because no magnitude begins with one. -/
theorem number?_of_magnitude? {text : List Char} {magnitude : Nat} (h : magnitude? text = some magnitude) :
    number? text = some (magnitude : Int) := by
  unfold number?
  split
  · exact absurd h (by simp [magnitude?, splitRadix, digits?, digit?])
  · exact absurd h (by simp [magnitude?, splitRadix, digits?, digit?])
  · rw [h]
    rfl

theorem number?_eq_some_iff {text : List Char} {number : Int} : number? text = some number ↔ Writes text number := by
  rw [writes_iff_magnitude?]
  constructor
  · unfold number?
    split
    · rename_i rest
      intro h
      obtain ⟨magnitude, hmagnitude, rfl⟩ := Option.map_eq_some_iff.mp h
      exact ⟨(['-'], -1), by simp [signs], rest, magnitude, rfl, hmagnitude, by simp⟩
    · rename_i rest
      intro h
      obtain ⟨magnitude, hmagnitude, rfl⟩ := Option.map_eq_some_iff.mp h
      exact ⟨(['+'], 1), by simp [signs], rest, magnitude, rfl, hmagnitude, by simp⟩
    · intro h
      obtain ⟨magnitude, hmagnitude, rfl⟩ := Option.map_eq_some_iff.mp h
      exact ⟨([], 1), by simp [signs], text, magnitude, rfl, hmagnitude, by simp⟩
  · rintro ⟨sign, hsign, rest, magnitude, rfl, hmagnitude, rfl⟩
    simp only [signs, List.mem_cons, List.not_mem_nil, or_false] at hsign
    rcases hsign with rfl | rfl | rfl
    · simpa using number?_of_magnitude? hmagnitude
    · simp [number?, hmagnitude]
    · simp [number?, hmagnitude]

theorem fit?_eq_some_iff {number : Int} {value : Int64} :
    fit? number = some value ↔ -2 ^ 63 ≤ number ∧ number ≤ 2 ^ 63 - 1 ∧ value.toInt = number := by
  rw [fit?, Int64.toInt_minValue, Int64.toInt_maxValue]
  constructor
  · intro h
    obtain ⟨⟨hlow, hhigh⟩, hvalue⟩ := Option.ite_none_right_eq_some.mp h
    obtain rfl := Option.some.inj hvalue
    exact ⟨hlow, hhigh, Int64.toInt_ofInt_of_le hlow (by omega)⟩
  · rintro ⟨hlow, hhigh, rfl⟩
    rw [if_pos ⟨hlow, hhigh⟩, Int64.ofInt_toInt]

theorem value?_eq_some_iff {text : List Char} {value : Int64} :
    value? text = some value ↔
      ∃ number, Writes text number ∧ -2 ^ 63 ≤ number ∧ number ≤ 2 ^ 63 - 1 ∧ value.toInt = number := by
  rw [value?_eq, Option.bind_eq_some_iff]
  simp only [number?_eq_some_iff, fit?_eq_some_iff]

end Numeral

theorem Token.value_eq_ok_iff {token : Token} {value : Int64} :
    token.value = .ok value ↔ Numeral.value? token.literal.toList = some value := by
  rw [Token.value]
  cases Numeral.value? token.literal.toList <;> simp

/-- **Numerals are read exactly.** A token has a value when its literal writes a number that fits into 64 bits, and the
value is that number. Any other literal is refused as a whole, where the token starts. -/
theorem Token.value_eq_ok_iff_writes (token : Token) :
    (∀ value : Int64, token.value = .ok value ↔
      ∃ number, Numeral.Writes token.literal.toList number ∧ -2 ^ 63 ≤ number ∧ number ≤ 2 ^ 63 - 1 ∧
        value.toInt = number) ∧
    ((¬ ∃ number, Numeral.Writes token.literal.toList number ∧ -2 ^ 63 ≤ number ∧ number ≤ 2 ^ 63 - 1) →
      token.value = .error ⟨.invalidLiteral token.literal, token.position⟩) := by
  constructor
  · intro value
    rw [value_eq_ok_iff, Numeral.value?_eq_some_iff]
  · intro hnone
    have hvalue : Numeral.value? token.literal.toList = none := by
      apply Option.eq_none_iff_forall_ne_some.mpr
      intro value hsome
      obtain ⟨number, hwrites, hlow, hhigh, -⟩ := Numeral.value?_eq_some_iff.mp hsome
      exact hnone ⟨number, hwrites, hlow, hhigh⟩
    rw [Token.value, hvalue]

/-- In the radix sixteen the least value can be written, and the number next above the greatest one has no value. -/
theorem Token.value_of_hexadecimal_bounds :
    (Token.mk .integer "-0x8000_0000_0000_0000" (.ofOffset 0 22)).value = .ok Int64.minValue ∧
      (Token.mk .integer "0X8000000000000000" (.ofOffset 4 18)).value =
        .error ⟨.invalidLiteral "0X8000000000000000", .ofOffset 4⟩ := by
  have hleast : Numeral.number? "-0x8000_0000_0000_0000".toList = some (-2 ^ 63) := by decide
  have hlarge : Numeral.number? "0X8000000000000000".toList = some (2 ^ 63) := by decide
  constructor
  · rw [(value_eq_ok_iff_writes _).1]
    exact ⟨-2 ^ 63, Numeral.number?_eq_some_iff.mp hleast, by decide, by decide, by decide⟩
  · apply (value_eq_ok_iff_writes _).2
    rintro ⟨number, hwrites, -, hhigh⟩
    rw [← Numeral.number?_eq_some_iff, hlarge] at hwrites
    obtain rfl := Option.some.inj hwrites
    exact absurd hhigh (by decide)

end Abacus
