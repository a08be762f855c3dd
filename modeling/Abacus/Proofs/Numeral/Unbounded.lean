import Abacus.Numeral

/-!
# Numerals without bounds

A numeral writes a number of any size, which a single pass over its characters finds: behind each digit stand further
digits or one underscore with a digit. Gathering the digits into a word fails once the number does not fit into it, and
it stays too large from there on. So all bounds that are met on the way come to a single one at the end: a numeral has
a value when its number fits into 64 bits with a sign.
-/

namespace Abacus.Numeral

/-- Reads on behind a digit, where `value` is what the digits so far write. -/
def digitsFrom? (radix value : Nat) : List Char → Option Nat
  | [] => some value
  | '_' :: c :: text =>
    match digit? radix c with
    | some digit => digitsFrom? radix (value * radix + digit) text
    | none => none
  | c :: text =>
    match digit? radix c with
    | some digit => digitsFrom? radix (value * radix + digit) text
    | none => none

/-- The number that digits write, with single underscores between digits. -/
def digits? (radix : Nat) : List Char → Option Nat
  | [] => none
  | c :: text =>
    match digit? radix c with
    | some digit => digitsFrom? radix digit text
    | none => none

def magnitude? (text : List Char) : Option Nat :=
  let (radix, digits) := splitRadix text
  digits? radix digits

def number? : List Char → Option Int
  | '-' :: text => (magnitude? text).map fun magnitude : Nat => -(magnitude : Int)
  | '+' :: text => (magnitude? text).map Int.ofNat
  | text => (magnitude? text).map Int.ofNat

/-- The 64-bit value of a number that fits. -/
def fit? (number : Int) : Option Int64 :=
  if Int64.minValue.toInt ≤ number ∧ number ≤ Int64.maxValue.toInt then some (Int64.ofInt number) else none

/-! ### Digits and underscores -/

section Digits

variable {radix : Nat}

theorem digit?_underscore (radix : Nat) : digit? radix '_' = none := by
  simp [digit?]

theorem ne_underscore_of_digit? {digit : Nat} {c : Char} (h : digit? radix c = some digit) : c ≠ '_' := by
  rintro rfl
  rw [digit?_underscore] at h
  exact Option.noConfusion rfl (heq_of_eq h)

theorem lt_of_digit? {digit : Nat} {c : Char} (h : digit? radix c = some digit) : digit < radix := by
  simpa using (Option.filter_eq_some_iff.mp h).2

theorem digitsFrom?_cons {c : Char} (hc : c ≠ '_') (value : Nat) (text : List Char) :
    digitsFrom? radix value (c :: text) =
      (digit? radix c).bind fun digit => digitsFrom? radix (value * radix + digit) text := by
  rw [digitsFrom?.eq_3 _ _ _ _ fun _ _ hunderscore => absurd hunderscore hc]
  cases digit? radix c <;> rfl

theorem hasDoubleUnderscore_cons {c : Char} (hc : c ≠ '_') (text : List Char) :
    hasDoubleUnderscore (c :: text) = hasDoubleUnderscore text :=
  hasDoubleUnderscore.eq_2 _ _ fun _ hunderscore => absurd hunderscore hc

/-- A text that may stand behind a digit: digits and underscores, each of them alone and none at the end. -/
structure Continues (radix : Nat) (text : List Char) : Prop where
  getLast?_ne : text.getLast? ≠ some '_'
  single : hasDoubleUnderscore text = false
  digit : ∀ c ∈ text, c = '_' ∨ (digit? radix c).isSome = true

theorem Continues.cons_iff {digit : Nat} {c : Char} (h : digit? radix c = some digit) (text : List Char) :
    Continues radix (c :: text) ↔ Continues radix text := by
  have hne := ne_underscore_of_digit? h
  have hlast : (c :: text).getLast? = some '_' ↔ text.getLast? = some '_' := by
    cases text with
    | nil => simp [hne]
    | cons d text => rw [List.getLast?_cons_cons]
  constructor
  · rintro ⟨hend, hsingle, hdigit⟩
    rw [hasDoubleUnderscore_cons hne] at hsingle
    exact ⟨mt hlast.mpr hend, hsingle, (List.forall_mem_cons.mp hdigit).2⟩
  · rintro ⟨hend, hsingle, hdigit⟩
    rw [← hasDoubleUnderscore_cons hne] at hsingle
    exact ⟨mt hlast.mp hend, hsingle, List.forall_mem_cons.mpr ⟨Or.inr (by rw [h]; rfl), hdigit⟩⟩

theorem Continues.underscore_cons_iff {digit : Nat} {c : Char} (h : digit? radix c = some digit) (text : List Char) :
    Continues radix ('_' :: c :: text) ↔ Continues radix text := by
  have hne := ne_underscore_of_digit? h
  have hsingle : hasDoubleUnderscore ('_' :: c :: text) = hasDoubleUnderscore (c :: text) := by
    apply hasDoubleUnderscore.eq_2
    rintro _ - heq
    exact hne (List.cons.inj heq).1
  rw [← Continues.cons_iff h text]
  constructor
  · rintro ⟨hend, hdouble, hdigit⟩
    rw [List.getLast?_cons_cons] at hend
    exact ⟨hend, hsingle ▸ hdouble, (List.forall_mem_cons.mp hdigit).2⟩
  · rintro ⟨hend, hdouble, hdigit⟩
    rw [← List.getLast?_cons_cons] at hend
    exact ⟨hend, hsingle ▸ hdouble, List.forall_mem_cons.mpr ⟨Or.inl rfl, hdigit⟩⟩

/-- A single pass reads exactly the texts that may stand behind a digit. -/
theorem continues_iff_isSome (value : Nat) (text : List Char) :
    Continues radix text ↔ (digitsFrom? radix value text).isSome = true := by
  fun_induction digitsFrom? radix value text with
  | case1 value => exact iff_of_true ⟨by simp, rfl, by simp⟩ rfl
  | case2 value c text digit hdigit ih => rw [Continues.underscore_cons_iff hdigit, ih]
  | case3 value c text hdigit =>
    refine iff_of_false ?_ (by simp)
    rintro ⟨-, hsingle, hclass⟩
    rcases hclass c (by simp) with rfl | hsome
    · exact absurd hsingle (by simp [hasDoubleUnderscore])
    · simp [hdigit] at hsome
  | case4 value c text hunderscore digit hdigit ih => rw [Continues.cons_iff hdigit, ih]
  | case5 value c text hunderscore hdigit =>
    refine iff_of_false ?_ (by simp)
    rintro ⟨hend, -, hclass⟩
    rcases hclass c List.mem_cons_self with rfl | hsome
    · cases text with
      | nil => exact hend rfl
      | cons d text => exact hunderscore d text rfl rfl
    · simp [hdigit] at hsome

/-- Underscores do not count. -/
theorem digitsFrom?_filter {value number : Nat} {text : List Char} (h : digitsFrom? radix value text = some number) :
    digitsFrom? radix value (text.filter (· != '_')) = some number := by
  have hcons : ∀ {value digit : Nat} {c : Char} {text : List Char}, digit? radix c = some digit →
      digitsFrom? radix value ((c :: text).filter (· != '_')) =
        digitsFrom? radix (value * radix + digit) (text.filter (· != '_')) := by
    intro value digit c text hdigit
    have hne := ne_underscore_of_digit? hdigit
    rw [List.filter_cons_of_pos (by simpa using hne), digitsFrom?_cons hne, hdigit, Option.bind_some]
  fun_induction digitsFrom? radix value text with
  | case1 value => exact h
  | case2 value c text digit hdigit ih =>
    rw [List.filter_cons_of_neg (by simp), hcons hdigit]
    exact ih h
  | case3 => simp at h
  | case4 value c text hunderscore digit hdigit ih =>
    rw [hcons hdigit]
    exact ih h
  | case5 => simp at h

theorem isSpelled_iff (text : List Char) :
    isSpelled radix text = true ↔ text ≠ [] ∧ text.head? ≠ some '_' ∧ Continues radix text := by
  simp only [isSpelled, Bool.not_eq_true', Bool.or_eq_false_iff, List.isEmpty_eq_false_iff, beq_eq_false_iff_ne,
    Bool.not_eq_false', List.all_eq_true, Bool.or_eq_true, beq_iff_eq]
  constructor
  · rintro ⟨⟨⟨⟨hne, hhead⟩, hend⟩, hsingle⟩, hdigit⟩
    exact ⟨hne, hhead, hend, hsingle, hdigit⟩
  · rintro ⟨hne, hhead, hend, hsingle, hdigit⟩
    exact ⟨⟨⟨⟨hne, hhead⟩, hend⟩, hsingle⟩, hdigit⟩

theorem isSpelled_cons_iff (c : Char) (text : List Char) :
    isSpelled radix (c :: text) = true ↔ (digit? radix c).isSome = true ∧ Continues radix text := by
  rw [isSpelled_iff]
  constructor
  · rintro ⟨-, hhead, hcontinues⟩
    have hsome := (hcontinues.digit c List.mem_cons_self).resolve_left fun hc => hhead (by rw [hc]; rfl)
    obtain ⟨digit, hdigit⟩ := Option.isSome_iff_exists.mp hsome
    exact ⟨hsome, (Continues.cons_iff hdigit text).mp hcontinues⟩
  · rintro ⟨hsome, hcontinues⟩
    obtain ⟨digit, hdigit⟩ := Option.isSome_iff_exists.mp hsome
    refine ⟨List.cons_ne_nil c text, ?_, (Continues.cons_iff hdigit text).mpr hcontinues⟩
    simpa using ne_underscore_of_digit? hdigit

/-- What is spelled as digits is read as the digits without underscores are, and nothing else is read. -/
theorem digits?_eq (radix : Nat) (text : List Char) :
    digits? radix text =
      if isSpelled radix text then digitsFrom? radix 0 (text.filter (· != '_')) else none := by
  cases text with
  | nil => rfl
  | cons c text =>
    rw [digits?]
    cases hdigit : digit? radix c with
    | none =>
      rw [if_neg]
      rw [isSpelled_cons_iff, hdigit]
      simp
    | some digit =>
      have hne := ne_underscore_of_digit? hdigit
      have hspelled : isSpelled radix (c :: text) = true ↔ (digitsFrom? radix digit text).isSome = true := by
        rw [isSpelled_cons_iff, hdigit, continues_iff_isSome digit]
        simp
      dsimp only
      cases hnumber : digitsFrom? radix digit text with
      | none => rw [if_neg (by rw [hspelled, hnumber]; simp)]
      | some number =>
        rw [if_pos (by rw [hspelled, hnumber]; rfl), List.filter_cons_of_pos (by simpa using hne), digitsFrom?_cons hne,
          hdigit, Option.bind_some, Nat.zero_mul, Nat.zero_add, digitsFrom?_filter hnumber]

end Digits

/-! ### Words -/

/-- The word of a number that fits into one. -/
def toWord? (number : Nat) : Option UInt64 :=
  if number < UInt64.size then some (.ofNat number) else none

theorem checkedMul_eq (left right : UInt64) : checkedMul left right = toWord? (left.toNat * right.toNat) := by
  rw [checkedMul, toWord?, UInt64.ofNat_mul, UInt64.ofNat_toNat, UInt64.ofNat_toNat]

theorem checkedAdd_eq (left right : UInt64) : checkedAdd left right = toWord? (left.toNat + right.toNat) := by
  rw [checkedAdd, toWord?, UInt64.ofNat_add, UInt64.ofNat_toNat, UInt64.ofNat_toNat]

theorem toWord?_toNat (word : UInt64) : toWord? word.toNat = some word := by
  rw [toWord?, if_pos word.toNat_lt, UInt64.ofNat_toNat]

/-- A number only grows with further digits. -/
theorem le_of_digitsFrom? {radix value number : Nat} (hradix : 0 < radix) {text : List Char}
    (h : digitsFrom? radix value text = some number) : value ≤ number := by
  have hgrows : ∀ value digit : Nat, value ≤ value * radix + digit := fun value digit =>
    Nat.le_add_right_of_le (Nat.le_mul_of_pos_right value hradix)
  fun_induction digitsFrom? radix value text with
  | case1 value => exact Nat.le_of_eq (Option.some.inj h)
  | case2 value c text digit hdigit ih => exact Nat.le_trans (hgrows value digit) (ih h)
  | case3 => simp at h
  | case4 value c text hunderscore digit hdigit ih => exact Nat.le_trans (hgrows value digit) (ih h)
  | case5 => simp at h

theorem toWord?_eq_none {number : Nat} (h : UInt64.size ≤ number) : toWord? number = none :=
  if_neg (Nat.not_lt.mpr h)

section Words

variable {radix : Nat} (hpos : 0 < radix) (hradix : radix ≤ 16)
include hradix

theorem pushDigit?_eq (value : UInt64) {digit : Nat} (hdigit : digit < radix) :
    pushDigit? radix value digit = toWord? (value.toNat * radix + digit) := by
  have hsmall : ∀ number ≤ 16, (UInt64.ofNat number).toNat = number := fun number hnumber =>
    UInt64.toNat_ofNat_of_lt' (Nat.lt_of_le_of_lt hnumber (by decide))
  rw [pushDigit?, checkedMul_eq, hsmall radix hradix]
  by_cases hproduct : value.toNat * radix < UInt64.size
  · rw [toWord?, if_pos hproduct, Option.bind_some, checkedAdd_eq, UInt64.toNat_ofNat_of_lt' hproduct,
      hsmall digit (by omega)]
  · have hlarge := Nat.not_lt.mp hproduct
    rw [toWord?_eq_none hlarge, toWord?_eq_none (Nat.le_add_right_of_le hlarge), Option.bind_none]

include hpos

/-- Gathering digits into a word comes to the word of their number, if there is one. -/
theorem gather?_eq (value : UInt64) {text : List Char} (htext : '_' ∉ text) :
    gather? radix value text = (digitsFrom? radix value.toNat text).bind toWord? := by
  induction text generalizing value with
  | nil => rw [gather?, digitsFrom?, Option.bind_some, toWord?_toNat]
  | cons c text ih =>
    have hc : c ≠ '_' := fun hunderscore => htext (hunderscore ▸ List.mem_cons_self)
    rw [gather?, digitsFrom?_cons hc]
    cases hdigit : digit? radix c with
    | none => rfl
    | some digit =>
      rw [Option.bind_some, Option.bind_some, pushDigit?_eq hradix value (lt_of_digit? hdigit)]
      by_cases hfits : value.toNat * radix + digit < UInt64.size
      · rw [toWord?, if_pos hfits]
        dsimp only
        rw [ih _ (List.not_mem_of_not_mem_cons htext), UInt64.toNat_ofNat_of_lt' hfits]
      · -- a number that is too large for a word stays too large
        rw [toWord?_eq_none (Nat.not_lt.mp hfits)]
        cases hnumber : digitsFrom? radix (value.toNat * radix + digit) text with
        | none => rfl
        | some number =>
          have hgrown := le_of_digitsFrom? hpos hnumber
          rw [Option.bind_some, toWord?_eq_none (Nat.le_trans (Nat.not_lt.mp hfits) hgrown)]

end Words

theorem word?_eq (text : List Char) : word? text = (magnitude? text).bind toWord? := by
  have hradix : 0 < (splitRadix text).1 ∧ (splitRadix text).1 ≤ 16 := by
    unfold splitRadix
    split <;> simp
  have hplain : '_' ∉ (splitRadix text).2.filter (· != '_') := by simp
  rw [word?, magnitude?]
  dsimp only
  rw [digits?_eq, gather?_eq hradix.1 hradix.2 0 hplain]
  split <;> rfl

/-! ### Signs -/

/-- A sign that a word may have makes its number one that fits, and no other sign does. -/
theorem bind_signed?_eq (negative : Bool) (magnitude : Nat) :
    (toWord? magnitude).bind (signed? negative) = fit? (if negative then -(magnitude : Int) else magnitude) := by
  have hmost : Int64.maxValue.toUInt64.toNat = 2 ^ 63 - 1 := by decide
  have hleast : (Int64.maxValue.toUInt64 + 1).toNat = 2 ^ 63 := by decide
  by_cases hword : magnitude < UInt64.size
  · have hvalue : (UInt64.ofNat magnitude).toInt64 = Int64.ofInt magnitude := by
      rw [UInt64.toInt64_ofNat', Int64.ofInt_eq_ofNat]
    have hnat : (UInt64.ofNat magnitude).toNat = magnitude := UInt64.toNat_ofNat_of_lt' hword
    rw [toWord?, if_pos hword, Option.bind_some, signed?, fit?, Int64.toInt_minValue, Int64.toInt_maxValue, hvalue]
    cases negative with
    | true =>
      simp only [if_true, UInt64.lt_iff_toNat_lt, gt_iff_lt, hleast, hnat, ← Int64.ofInt_neg]
      by_cases hlow : 2 ^ 63 < magnitude
      · rw [if_pos hlow, if_neg (by omega)]
      · rw [if_neg hlow, if_pos (by omega)]
    | false =>
      simp only [Bool.false_eq_true, if_false, UInt64.le_iff_toNat_le, hmost, hnat]
      by_cases hhigh : magnitude ≤ 2 ^ 63 - 1
      · rw [if_pos hhigh, if_pos (by omega)]
      · rw [if_neg hhigh, if_neg (by omega)]
  · rw [toWord?_eq_none (Nat.not_lt.mp hword), Option.bind_none, fit?, Int64.toInt_minValue, Int64.toInt_maxValue,
      if_neg]
    have hlarge : 2 ^ 64 ≤ magnitude := Nat.not_lt.mp hword
    split <;> omega

theorem value?_of_splitSign {text rest : List Char} {negative : Bool} (h : splitSign text = (negative, rest)) :
    value? text =
      ((magnitude? rest).map fun magnitude : Nat => if negative then -(magnitude : Int) else magnitude).bind fit? := by
  rw [value?, h]
  dsimp only
  rw [word?_eq, Option.bind_assoc, Option.bind_map]
  congr 1
  funext magnitude
  exact bind_signed?_eq negative magnitude

/-- A numeral has the value of its number, if that fits. -/
theorem value?_eq (text : List Char) : value? text = (number? text).bind fit? := by
  unfold number?
  split
  · exact value?_of_splitSign rfl
  · exact value?_of_splitSign rfl
  · rename_i hminus hplus
    exact value?_of_splitSign (splitSign.eq_3 text hminus hplus)

end Abacus.Numeral
