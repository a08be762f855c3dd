import Abacus.Proofs.Token.Lexeme
import Mathlib.Computability.Language
import Mathlib.Tactic.Abel

/-!
# The language of sources

`Written.row` is the regular language of the texts that write a row of operands: gaps anywhere between tokens,
signs in front of digits, operators between operands. A reader of characters is at one of three stages, and the
texts that finish from a stage make up a language of its own. Unrolling the repetitions of `Written.row` by one
character gives one linear equation for each of these languages, so the reader accepts exactly the texts of the
language. It refuses a character only where no text of the language can go on, and from every stage some text can.
-/

open scoped Computability

namespace Abacus

namespace Written

def one (inClass : Char → Bool) : Language Char :=
  {text | ∃ c, inClass c = true ∧ text = [c]}

def gap : Language Char :=
  {text | ∃ c ∈ [' ', '\t', '\n', '\r'], text = [c]}

def gaps : Language Char := gap∗

def signs : Language Char := (one isSignChar * gaps)∗

def digits : Language Char := one Char.isDigit * (one Char.isDigit)∗

/-- The texts that write operands with operators between them. -/
def row : Language Char :=
  gaps * signs * digits * (gaps * one isOperatorChar * gaps * signs * digits)∗ * gaps

def more : Language Char :=
  (gaps * one isOperatorChar * gaps * signs * digits)∗ * gaps

theorem cons_mem_one_mul {inClass : Char → Bool} {rest : Language Char} {c : Char} {text : List Char} :
    c :: text ∈ one inClass * rest ↔ inClass c = true ∧ text ∈ rest := by
  rw [Language.mem_mul]
  constructor
  · rintro ⟨left, ⟨d, hd, rfl⟩, right, hright, heq⟩
    obtain ⟨rfl, rfl⟩ := List.cons.inj heq
    exact ⟨hd, hright⟩
  · rintro ⟨hc, htext⟩
    exact ⟨[c], ⟨c, hc, rfl⟩, text, htext, rfl⟩

theorem nil_notMem_one_mul {inClass : Char → Bool} {rest : Language Char} : [] ∉ one inClass * rest := by
  rw [Language.mem_mul]
  rintro ⟨left, ⟨d, -, rfl⟩, right, -, heq⟩
  simp at heq

theorem gap_eq_one_isGap : gap = one isGap := by
  simp only [gap, one, isGap_iff_mem]
  rfl

theorem gaps_eq : gaps = 1 + one isGap * gaps := by
  rw [gaps, gap_eq_one_isGap]
  exact (Language.one_add_self_mul_kstar_eq_kstar (one isGap)).symm

theorem row_eq_mul_more : row = gaps * signs * digits * more := by
  rw [row, more, mul_assoc]

theorem more_eq : more = 1 + one isGap * more + one isOperatorChar * row := by
  have hunroll : more = gaps + gaps * (one isOperatorChar * row) := by
    conv_lhs => rw [more, ← Language.one_add_self_mul_kstar_eq_kstar]
    rw [row_eq_mul_more, more, add_mul, one_mul]
    simp only [mul_assoc]
  calc more
      = gaps + gaps * (one isOperatorChar * row) := hunroll
    _ = (1 + one isGap * gaps) + (1 + one isGap * gaps) * (one isOperatorChar * row) := by rw [← gaps_eq]
    _ = 1 + one isGap * (gaps + gaps * (one isOperatorChar * row)) + one isOperatorChar * row := by
        rw [add_mul, one_mul, mul_add, mul_assoc]
        abel
    _ = 1 + one isGap * more + one isOperatorChar * row := by rw [← hunroll]

theorem digits_more_eq :
    (one Char.isDigit)∗ * more = one Char.isDigit * ((one Char.isDigit)∗ * more) + more := by
  conv_lhs => rw [← Language.one_add_self_mul_kstar_eq_kstar]
  rw [add_mul, one_mul, mul_assoc, add_comm]

theorem row_eq :
    row = one isGap * row + one isSignChar * row + one Char.isDigit * ((one Char.isDigit)∗ * more) := by
  have hsigns : signs = 1 + one isSignChar * (gaps * signs) := by
    conv_lhs => rw [signs, ← Language.one_add_self_mul_kstar_eq_kstar]
    rw [← signs, mul_assoc]
  have hlead : gaps * signs = 1 + one isSignChar * (gaps * signs) + one isGap * (gaps * signs) := by
    conv_lhs => rw [gaps_eq, add_mul, one_mul, mul_assoc]
    rw [← hsigns]
  have hdigits : digits * more = one Char.isDigit * ((one Char.isDigit)∗ * more) := by
    rw [digits, mul_assoc]
  calc row
      = gaps * signs * (digits * more) := by rw [row_eq_mul_more, mul_assoc]
    _ = (1 + one isSignChar * (gaps * signs) + one isGap * (gaps * signs)) * (digits * more) := by
        rw [← hlead]
    _ = one isGap * row + one isSignChar * row + digits * more := by
        rw [row_eq_mul_more, add_mul, add_mul, one_mul]
        simp only [mul_assoc]
        abel
    _ = one isGap * row + one isSignChar * row + one Char.isDigit * ((one Char.isDigit)∗ * more) := by
        rw [hdigits]

end Written

/-- What a reader of characters has come to: an operand must follow, the digits of one may go on, or it is
complete. -/
inductive Stage where
  | operand
  | digits
  | operator
  deriving DecidableEq

namespace Stage

/-- The stage behind one more character, if it can stand there. -/
def next? : Stage → Char → Option Stage
  | operand, c => if isGap c || isSignChar c then some operand else if c.isDigit then some digits else none
  | digits, c =>
    if c.isDigit then some digits
    else if isGap c then some operator else if isOperatorChar c then some operand else none
  | operator, c => if isGap c then some operator else if isOperatorChar c then some operand else none

/-- The stage before the first character that cannot stand where it does, and the text from there on. -/
def read (stage : Stage) : List Char → Stage × List Char
  | [] => (stage, [])
  | c :: text =>
    match stage.next? c with
    | some next => next.read text
    | none => (stage, c :: text)

theorem read_cons_of_some {stage next : Stage} {c : Char} (h : stage.next? c = some next) (text : List Char) :
    stage.read (c :: text) = next.read text := by
  rw [read, h]

theorem read_cons_of_none {stage : Stage} {c : Char} (h : stage.next? c = none) (text : List Char) :
    stage.read (c :: text) = (stage, c :: text) := by
  rw [read, h]

theorem read_append {stage : Stage} {left : List Char} (h : (stage.read left).2 = []) (right : List Char) :
    stage.read (left ++ right) = (stage.read left).1.read right := by
  induction left generalizing stage with
  | nil => rfl
  | cons c left ih =>
    cases hnext : stage.next? c with
    | none => simp [read_cons_of_none hnext] at h
    | some next =>
      rw [read_cons_of_some hnext] at h ⊢
      rw [List.cons_append, read_cons_of_some hnext]
      exact ih h

theorem read_left_eq_nil {stage : Stage} {left right : List Char} (h : (stage.read (left ++ right)).2 = []) :
    (stage.read left).2 = [] := by
  induction left generalizing stage with
  | nil => rfl
  | cons c left ih =>
    cases hnext : stage.next? c with
    | none => simp [read_cons_of_none hnext] at h
    | some next =>
      rw [List.cons_append, read_cons_of_some hnext] at h
      rw [read_cons_of_some hnext]
      exact ih h

theorem exists_read_split (stage : Stage) (text : List Char) :
    ∃ before, text = before ++ (stage.read text).2 ∧ stage.read before = ((stage.read text).1, []) ∧
      ∀ c ∈ (stage.read text).2.head?, (stage.read text).1.next? c = none := by
  induction text generalizing stage with
  | nil => exact ⟨[], rfl, rfl, by simp [read]⟩
  | cons c text ih =>
    cases hnext : stage.next? c with
    | none =>
      rw [read_cons_of_none hnext]
      refine ⟨[], rfl, rfl, ?_⟩
      intro d hd
      obtain rfl := Option.mem_some.mp hd
      exact hnext
    | some next =>
      obtain ⟨before, htext, hbefore, hrefused⟩ := ih next
      rw [read_cons_of_some hnext]
      refine ⟨c :: before, ?_, ?_, hrefused⟩
      · rw [List.cons_append, ← htext]
      · rw [read_cons_of_some hnext, hbefore]

/-- What was read before a refused character cannot be made longer. -/
theorem isPrefix_of_read_eq_nil {stage last : Stage} {before rest : List Char}
    (hbefore : stage.read before = (last, [])) (hrefused : ∀ c ∈ rest.head?, last.next? c = none)
    {left right : List Char} (hsplit : before ++ rest = left ++ right) (hleft : (stage.read left).2 = []) :
    left <+: before := by
  rcases List.append_eq_append_iff.mp hsplit with ⟨extra, hlonger, hrest⟩ | ⟨extra, hshorter, -⟩
  · cases extra with
    | nil => rw [hlonger, List.append_nil]
    | cons c extra =>
      have hnone : last.next? c = none := hrefused c (by rw [hrest]; rfl)
      rw [hlonger, read_append (by rw [hbefore]), hbefore, read_cons_of_none hnone] at hleft
      simp at hleft
  · exact ⟨extra, hshorter.symm⟩

/-- The texts that finish a row from a stage on. -/
def language : Stage → Language Char
  | operand => Written.row
  | digits => (Written.one Char.isDigit)∗ * Written.more
  | operator => Written.more

theorem nil_mem_language_iff (stage : Stage) : [] ∈ stage.language ↔ stage ≠ .operand := by
  have hmore : [] ∈ Written.more := by
    rw [Written.more_eq]
    exact Or.inl (Or.inl rfl)
  cases stage with
  | operand =>
    rw [language, Written.row_eq]
    simp only [Language.mem_add, Written.nil_notMem_one_mul, or_self, ne_eq, not_true_eq_false]
  | digits =>
    rw [language, Written.digits_more_eq]
    exact iff_of_true (Or.inr hmore) (by decide)
  | operator => exact iff_of_true hmore (by decide)

theorem next?_digits_of_not_isDigit {c : Char} (h : ¬ c.isDigit = true) : digits.next? c = operator.next? c :=
  if_neg h

theorem next?_operand_of_isDigit {c : Char} (h : c.isDigit = true) : operand.next? c = some digits := by
  have hgap : ¬ isGap c = true := by
    intro hgap
    simp [isDigit_eq_false_of_isGap hgap] at h
  have hsign : ¬ isSignChar c = true := by
    intro hsign
    simp [isDigit_eq_false_of_isOperatorChar (isOperatorChar_of_isSignChar hsign)] at h
  simp [next?, hgap, hsign, h]

theorem next?_operator_of_isDigit {c : Char} (h : c.isDigit = true) : operator.next? c = none := by
  have hgap : ¬ isGap c = true := by
    intro hgap
    simp [isDigit_eq_false_of_isGap hgap] at h
  have hoperator : ¬ isOperatorChar c = true := by
    intro hoperator
    simp [isDigit_eq_false_of_isOperatorChar hoperator] at h
  rw [next?, if_neg hgap, if_neg hoperator]

theorem next?_operand_of_isSignChar {c : Char} (h : isSignChar c = true) : operand.next? c = some operand := by
  simp [next?, h]

theorem next?_operator_of_isOperatorChar {c : Char} (h : isOperatorChar c = true) :
    operator.next? c = some operand := by
  simp [next?, isGap_eq_false_of_isOperatorChar h, h]

theorem next?_operand_eq_none {c : Char} (hgap : isGap c = false) (hdigit : ¬ c.isDigit = true)
    (hsign : ¬ isSignChar c = true) : operand.next? c = none := by
  simp [next?, hgap, hdigit, hsign]

theorem next?_operator_eq_none {c : Char} (hgap : isGap c = false) (hoperator : ¬ isOperatorChar c = true) :
    operator.next? c = none := by
  simp [next?, hgap, hoperator]

theorem cons_mem_more_iff (c : Char) (text : List Char) :
    c :: text ∈ Written.more ↔ ∃ next, operator.next? c = some next ∧ text ∈ next.language := by
  conv_lhs => rw [Written.more_eq]
  simp only [Language.mem_add, Written.cons_mem_one_mul, Language.mem_one, reduceCtorEq, false_or, next?]
  by_cases hgap : isGap c = true
  · have hoperator : ¬ isOperatorChar c = true := by
      intro hoperator
      simp [isGap_eq_false_of_isOperatorChar hoperator] at hgap
    simp [hgap, hoperator, language]
  · by_cases hoperator : isOperatorChar c = true <;> simp [hgap, hoperator, language]

theorem cons_mem_row_iff (c : Char) (text : List Char) :
    c :: text ∈ Written.row ↔ ∃ next, operand.next? c = some next ∧ text ∈ next.language := by
  conv_lhs => rw [Written.row_eq]
  simp only [Language.mem_add, Written.cons_mem_one_mul, next?]
  by_cases hskip : isGap c = true ∨ isSignChar c = true
  · have hdigit : c.isDigit = false := by
      rcases hskip with hgap | hsign
      · exact isDigit_eq_false_of_isGap hgap
      · exact isDigit_eq_false_of_isOperatorChar (isOperatorChar_of_isSignChar hsign)
    rw [if_pos (Bool.or_eq_true _ _ ▸ hskip), hdigit, ← or_and_right]
    simp [hskip, language]
  · rw [if_neg (Bool.or_eq_true _ _ ▸ hskip)]
    obtain ⟨hgap, hsign⟩ := not_or.mp hskip
    by_cases hdigit : c.isDigit = true <;> simp [hgap, hsign, hdigit, language]

theorem cons_mem_language_iff (stage : Stage) (c : Char) (text : List Char) :
    c :: text ∈ stage.language ↔ ∃ next, stage.next? c = some next ∧ text ∈ next.language := by
  cases stage with
  | operand => exact cons_mem_row_iff c text
  | operator => exact cons_mem_more_iff c text
  | digits =>
    conv_lhs => rw [language, Written.digits_more_eq]
    rw [Language.mem_add, Written.cons_mem_one_mul, cons_mem_more_iff]
    by_cases hdigit : c.isDigit = true
    · rw [next?_operator_of_isDigit hdigit]
      simp [next?, hdigit, language]
    · rw [next?_digits_of_not_isDigit hdigit]
      simp [hdigit]

/-- A text is in the language of a stage exactly when it can be read to its end and completes an operand. -/
theorem mem_language_iff (stage : Stage) (text : List Char) :
    text ∈ stage.language ↔ (stage.read text).2 = [] ∧ (stage.read text).1 ≠ .operand := by
  induction text generalizing stage with
  | nil =>
    rw [nil_mem_language_iff]
    simp [read]
  | cons c text ih =>
    rw [cons_mem_language_iff]
    cases hnext : stage.next? c with
    | none => simp [read_cons_of_none hnext]
    | some next => simp [read_cons_of_some hnext, ih]

/-- A text can go on to one of the language exactly when it can be read to its end. -/
theorem exists_append_mem_language_iff (stage : Stage) (text : List Char) :
    (∃ more, text ++ more ∈ stage.language) ↔ (stage.read text).2 = [] := by
  constructor
  · rintro ⟨more, hmem⟩
    exact read_left_eq_nil ((mem_language_iff _ _).mp hmem).1
  · intro hread
    have hzero : operand.read ['0'] = (digits, []) := by decide
    cases hstage : (stage.read text).1 with
    | operand =>
      refine ⟨['0'], (mem_language_iff _ _).mpr ?_⟩
      rw [read_append hread, hstage, hzero]
      exact ⟨rfl, by decide⟩
    | digits =>
      refine ⟨[], (mem_language_iff _ _).mpr ?_⟩
      rw [List.append_nil, hread, hstage]
      exact ⟨rfl, by decide⟩
    | operator =>
      refine ⟨[], (mem_language_iff _ _).mpr ?_⟩
      rw [List.append_nil, hread, hstage]
      exact ⟨rfl, by decide⟩

end Stage

end Abacus
