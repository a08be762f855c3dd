import Abacus.Proofs.Token.Lexer
import Abacus.Proofs.Token.Seam

/-!
# A lexer driven by hand

A lexer may be asked for tokens, moved, looked at and copied in any order. One fact is carried along every such run:
the lexer is finished exactly if it has yielded the end of the input, and it has done so at most once. Where it stands
is decided by its offset alone. Between two characters it yields the tokens of the text from there on; inside of one it
can read nothing and stays as it is.
-/

namespace Abacus.Lexer

/-! ### Actions -/

inductive Action where
  | next
  | advance (count : Nat)
  | remainder
  | atEnd
  | clone

/-- What a lexer answers to an action; `misaligned` if no text starts at its place. -/
inductive Answer where
  | token (token : Token)
  | exhausted
  | moved
  | text (text : List Char)
  | atEnd (atEnd : Bool)
  | copy (lexer : Lexer)
  | misaligned

def Answer.isEnd : Answer → Bool
  | token found => found.kind = .endOfInput
  | _ => false

def Step.answer (lexer : Lexer) : Step → Answer × Lexer
  | token found rest => (.token found, rest)
  | exhausted => (.exhausted, lexer)
  | misaligned => (.misaligned, lexer)

/-- The answer to an action, and the lexer after it. -/
def Action.apply (lexer : Lexer) : Action → Answer × Lexer
  | next => lexer.next.answer lexer
  | advance count => (.moved, lexer.advance count)
  | remainder => (lexer.remainder?.elim .misaligned .text, lexer)
  | atEnd => (.atEnd lexer.atEnd, lexer)
  | clone => (.copy lexer, lexer)

/-- The number of bytes by which an action advances a lexer, by hand or behind a token. -/
def Action.distance (lexer : Lexer) : Action → Nat
  | advance count => count
  | action => (action.apply lexer).2.offset - lexer.offset

def after (lexer : Lexer) (actions : List Action) : Lexer :=
  actions.foldl (fun lexer action => (action.apply lexer).2) lexer

def answers (lexer : Lexer) : List Action → List Answer
  | [] => []
  | action :: actions => (action.apply lexer).1 :: (action.apply lexer).2.answers actions

/-- The sum of all advances in a run. -/
def distance (lexer : Lexer) : List Action → Nat
  | [] => 0
  | action :: actions => action.distance lexer + (action.apply lexer).2.distance actions

theorem distance_append (lexer : Lexer) (front back : List Action) :
    lexer.distance (front ++ back) = lexer.distance front + (lexer.after front).distance back := by
  induction front generalizing lexer with
  | nil => exact (Nat.zero_add _).symm
  | cons action front ih => rw [List.cons_append, distance, ih, ← Nat.add_assoc]; rfl

/-! ### What one step can do -/

theorem offset_le_find (offset : Nat) (text : List Char) : offset ≤ (find offset text).offset := by
  induction text generalizing offset with
  | nil => exact Nat.le_refl offset
  | cons c text ih =>
    unfold find
    split
    · exact Nat.le_trans (Nat.le_add_right _ _) (ih _)
    · exact Nat.le_add_right _ _

theorem isEnd_find_iff (offset : Nat) (text : List Char) :
    (find offset text).isEnd = true ↔ (find offset text).token.kind = .endOfInput := by
  induction text generalizing offset with
  | nil => exact ⟨fun _ => rfl, fun _ => rfl⟩
  | cons c text ih =>
    unfold find
    split
    · exact ih _
    · exact ⟨fun h => absurd h Bool.false_ne_true, fun h => absurd h (Lexeme.kind_read_ne_endOfInput c text)⟩

theorem of_next_eq_token {lexer rest : Lexer} {token : Token} (h : lexer.next = .token token rest) :
    lexer.finished = false ∧ rest.source = lexer.source ∧ lexer.offset ≤ rest.offset ∧
      (rest.finished = true ↔ token.kind = .endOfInput) := by
  unfold next at h
  split at h
  · simp at h
  · rename_i hfinished
    refine ⟨by simpa using hfinished, ?_⟩
    split at h
    · obtain ⟨rfl, rfl⟩ := Step.token.inj h
      exact ⟨rfl, Nat.le_refl _, fun _ => rfl, fun _ => rfl⟩
    · split at h
      · obtain ⟨rfl, rfl⟩ := Step.token.inj h
        exact ⟨rfl, offset_le_find _ _, isEnd_find_iff _ _⟩
      · simp at h

theorem next_eq_exhausted_iff (lexer : Lexer) : lexer.next = .exhausted ↔ lexer.finished = true := by
  unfold next
  split
  · simp_all
  · split <;> (try split) <;> simp_all

theorem next_eq_misaligned_iff (lexer : Lexer) :
    lexer.next = .misaligned ↔ lexer.finished = false ∧ lexer.atEnd = false ∧ lexer.skip ≠ 0 := by
  unfold next
  split
  · simp_all
  · split <;> (try split) <;> simp_all

/-- An action reads a token, moves the lexer, or leaves it as it is. -/
theorem apply_cases (lexer : Lexer) (action : Action) :
    (∃ token, action = .next ∧ (action.apply lexer).1 = .token token ∧
      lexer.next = .token token (action.apply lexer).2) ∨
    (∃ count, action = .advance count ∧ action.apply lexer = (.moved, lexer.advance count)) ∨
    (∀ count, action ≠ .advance count) ∧ (action.apply lexer).1.isEnd = false ∧ (action.apply lexer).2 = lexer := by
  cases action with
  | next =>
    rw [Action.apply]
    cases lexer.next with
    | token token rest => exact Or.inl ⟨token, rfl, rfl, rfl⟩
    | exhausted => exact Or.inr (Or.inr ⟨nofun, rfl, rfl⟩)
    | misaligned => exact Or.inr (Or.inr ⟨nofun, rfl, rfl⟩)
  | advance count => exact Or.inr (Or.inl ⟨count, rfl, rfl⟩)
  | remainder =>
    rw [Action.apply]
    cases lexer.remainder? <;> exact Or.inr (Or.inr ⟨nofun, rfl, rfl⟩)
  | atEnd => exact Or.inr (Or.inr ⟨nofun, rfl, rfl⟩)
  | clone => exact Or.inr (Or.inr ⟨nofun, rfl, rfl⟩)

section Apply

variable (lexer : Lexer) (action : Action)

theorem source_apply : (action.apply lexer).2.source = lexer.source := by
  rcases apply_cases lexer action with ⟨token, -, -, hnext⟩ | ⟨count, -, happly⟩ | ⟨-, -, hkept⟩
  · exact (of_next_eq_token hnext).2.1
  · rw [happly]
    rfl
  · rw [hkept]

/-- The end of the input is yielded by the step that finishes a lexer, and nothing undoes that. -/
theorem finished_apply :
    (action.apply lexer).2.finished.toNat = lexer.finished.toNat + [(action.apply lexer).1].countP Answer.isEnd := by
  rcases apply_cases lexer action with ⟨token, -, hanswer, hnext⟩ | ⟨count, -, happly⟩ | ⟨-, hanswer, hkept⟩
  · obtain ⟨hfinished, -, -, hend⟩ := of_next_eq_token hnext
    rw [hfinished, hanswer, List.countP_singleton]
    by_cases hkind : token.kind = .endOfInput
    · simp [hend.mpr hkind, Answer.isEnd, hkind]
    · have hrest : (action.apply lexer).2.finished = false := by simpa using mt hend.mp hkind
      simp [hrest, Answer.isEnd, hkind]
  · rw [happly]
    rfl
  · rw [hkept, List.countP_singleton, hanswer]
    rfl

theorem skip_apply (hskip : lexer.skip = 0) (haction : ∀ count, action ≠ .advance count) :
    (action.apply lexer).2.skip = 0 := by
  rcases apply_cases lexer action with ⟨token, -, -, hnext⟩ | ⟨count, hadvance, -⟩ | ⟨-, -, hkept⟩
  · exact (left_of_next hskip hnext).1
  · exact absurd hadvance (haction count)
  · rw [hkept, hskip]

theorem offset_apply (h : lexer.offset + action.distance lexer < offsetCount) :
    (action.apply lexer).2.offset = lexer.offset + action.distance lexer := by
  rcases apply_cases lexer action with ⟨token, rfl, -, hnext⟩ | ⟨count, rfl, happly⟩ | ⟨hother, -, hkept⟩
  · exact (Nat.add_sub_cancel' (of_next_eq_token hnext).2.2.1).symm
  · rw [happly]
    exact Nat.mod_eq_of_lt h
  · have hdistance : action.distance lexer = (action.apply lexer).2.offset - lexer.offset := by
      cases action with
      | advance count => exact absurd rfl (hother count)
      | next | remainder | atEnd | clone => rfl
    rw [hdistance, hkept]
    omega

end Apply

/-! ### What a run comes to -/

section Run

variable (lexer : Lexer) (actions : List Action)

theorem source_after : (lexer.after actions).source = lexer.source := by
  induction actions generalizing lexer with
  | nil => rfl
  | cons action actions ih => exact (ih _).trans (source_apply lexer action)

theorem finished_after :
    (lexer.after actions).finished.toNat = lexer.finished.toNat + (lexer.answers actions).countP Answer.isEnd := by
  induction actions generalizing lexer with
  | nil => rfl
  | cons action actions ih =>
    have hrest := ih (action.apply lexer).2
    rw [finished_apply, Nat.add_assoc, ← List.countP_append] at hrest
    exact hrest

theorem skip_after (hskip : lexer.skip = 0) (hactions : ∀ count, .advance count ∉ actions) :
    (lexer.after actions).skip = 0 := by
  induction actions generalizing lexer with
  | nil => exact hskip
  | cons action actions ih =>
    apply ih
    · apply skip_apply lexer action hskip
      rintro count rfl
      exact hactions count List.mem_cons_self
    · intro count hmem
      exact hactions count (List.mem_cons_of_mem action hmem)

/-- As long as offsets do not run out, a lexer stands where the sum of its advances puts it. -/
theorem offset_after (h : lexer.offset + lexer.distance actions < offsetCount) :
    (lexer.after actions).offset = lexer.offset + lexer.distance actions := by
  induction actions generalizing lexer with
  | nil => rfl
  | cons action actions ih =>
    rw [distance, ← Nat.add_assoc] at h ⊢
    have hfirst := offset_apply lexer action (Nat.lt_of_le_of_lt (Nat.le_add_right _ _) h)
    rw [← hfirst] at h ⊢
    exact ih _ h

theorem offset_after_le (front back : List Action)
    (h : lexer.offset + lexer.distance (front ++ back) < offsetCount) :
    (lexer.after front).offset ≤ (lexer.after (front ++ back)).offset := by
  have hall := offset_after lexer (front ++ back) h
  rw [distance_append] at hall h
  have hfront := offset_after lexer front (by omega)
  omega

end Run

/-! ### Where a lexer stands -/

/-- Whether a byte offset into a source lies between two characters, or at one of its ends. -/
def IsBoundary (source : String) (offset : Nat) : Prop :=
  ∃ before after, source.toList = before ++ after ∧ Text.byteLength before = offset

section Place

variable (lexer : Lexer)

theorem exists_before : ∃ before, lexer.source = before ++ lexer.ahead ∧
    Text.byteLength before + lexer.skip = lexer.offset ∧ ∀ c ∈ lexer.ahead.head?, lexer.skip < c.utf8Size := by
  have hplace := Text.exists_settle lexer.offset lexer.source
  rwa [lexer.settled] at hplace

theorem atEnd_iff : lexer.atEnd = true ↔ Text.byteLength lexer.source ≤ lexer.offset := by
  obtain ⟨before, hsource, hoffset, hnext⟩ := lexer.exists_before
  rw [atEnd, hsource, Text.byteLength_append]
  cases hahead : lexer.ahead with
  | nil => simpa using Nat.le.intro hoffset
  | cons c ahead =>
    have hlt : lexer.skip < c.utf8Size := hnext c (by rw [hahead]; rfl)
    rw [Text.byteLength_cons]
    simp only [List.isEmpty_cons, Bool.false_eq_true, false_iff]
    omega

variable {lexer}

theorem place_of_split {before after : List Char} (hsource : lexer.source = before ++ after)
    (hoffset : Text.byteLength before = lexer.offset) : lexer.skip = 0 ∧ lexer.ahead = after := by
  have hsettled := lexer.settled
  rw [hsource, ← hoffset, Text.settle_byteLength] at hsettled
  obtain ⟨hskip, hahead⟩ := Prod.mk.inj hsettled
  exact ⟨hskip.symm, hahead.symm⟩

variable {source : String} (hsource : lexer.source = source.toList)
include hsource

theorem isBoundary_of_skip (hskip : lexer.skip = 0) : IsBoundary source lexer.offset := by
  obtain ⟨before, hsplit, hoffset, -⟩ := lexer.exists_before
  rw [hskip, Nat.add_zero] at hoffset
  exact ⟨before, lexer.ahead, hsource.symm.trans hsplit, hoffset⟩

theorem next_eq_misaligned_iff_boundary :
    lexer.next = .misaligned ↔
      lexer.finished = false ∧ lexer.offset < source.utf8ByteSize ∧ ¬ IsBoundary source lexer.offset := by
  have hend : lexer.atEnd = false ↔ lexer.offset < source.utf8ByteSize := by
    rw [← Bool.not_eq_true, atEnd_iff, hsource, Text.byteLength_toList, Nat.not_le]
  have hskip : lexer.skip ≠ 0 ↔ ¬ IsBoundary source lexer.offset := by
    apply not_congr
    constructor
    · exact isBoundary_of_skip hsource
    · rintro ⟨before, after, hsplit, hoffset⟩
      exact (place_of_split (hsource.trans hsplit) hoffset).1
  rw [next_eq_misaligned_iff, hend, hskip]

theorem rest_of_split {before after : List Char} (hfinished : lexer.finished = false)
    (hsplit : source.toList = before ++ after) (hoffset : Text.byteLength before = lexer.offset) :
    lexer.rest.1 = some ((tokenize (String.ofList after)).map (Token.shift lexer.offset)) := by
  obtain ⟨hskip, hahead⟩ := place_of_split (hsource.trans hsplit) hoffset
  rw [rest, drain_eq hskip, left, if_neg (by simp [hfinished]), hahead, Token.map_shift_tokenize]
  rfl

end Place

/-! ### Every run -/

/-- What can be said of a lexer on a source from the answers it has given. -/
structure Lawful (source : String) (given : List Answer) (lexer : Lexer) : Prop where
  countP_isEnd_le : given.countP Answer.isEnd ≤ 1
  exhausted_iff : (Action.next.apply lexer).1 = .exhausted ↔ ∃ answer ∈ given, answer.isEnd = true
  exhausted_keeps : (Action.next.apply lexer).1 = .exhausted → (Action.next.apply lexer).2 = lexer
  misaligned_iff : (Action.next.apply lexer).1 = .misaligned ↔
    (∀ answer ∈ given, answer.isEnd = false) ∧ lexer.offset < source.utf8ByteSize ∧
      ¬ IsBoundary source lexer.offset
  misaligned_keeps : (Action.next.apply lexer).1 = .misaligned → (Action.next.apply lexer).2 = lexer
  rest_eq : (∀ answer ∈ given, answer.isEnd = false) → ∀ before after, source.toList = before ++ after →
    Text.byteLength before = lexer.offset →
      lexer.rest.1 = some ((tokenize (String.ofList after)).map (Token.shift lexer.offset))

theorem apply_next_fst_iff (lexer : Lexer) :
    ((Action.next.apply lexer).1 = .exhausted ↔ lexer.next = .exhausted) ∧
      ((Action.next.apply lexer).1 = .misaligned ↔ lexer.next = .misaligned) := by
  rw [Action.apply]
  cases lexer.next <;> simp [Step.answer]

theorem lawful_of_finished {source : String} {given : List Answer} {lexer : Lexer}
    (hsource : lexer.source = source.toList) (hfinished : lexer.finished.toNat = given.countP Answer.isEnd) :
    Lawful source given lexer := by
  have hended : lexer.finished = true ↔ ∃ answer ∈ given, answer.isEnd = true := by
    rw [← List.countP_pos_iff, ← hfinished]
    cases lexer.finished <;> simp
  have hopen : lexer.finished = false ↔ ∀ answer ∈ given, answer.isEnd = false := by
    rw [← Bool.not_eq_true, hended]
    simp
  obtain ⟨hexhausted, hmisaligned⟩ := apply_next_fst_iff lexer
  refine ⟨hfinished ▸ Bool.toNat_le lexer.finished, ?_, ?_, ?_, ?_, ?_⟩
  · rw [hexhausted, next_eq_exhausted_iff, hended]
  · intro h
    rw [Action.apply, hexhausted.mp h]
    rfl
  · rw [hmisaligned, next_eq_misaligned_iff_boundary hsource, hopen]
  · intro h
    rw [Action.apply, hmisaligned.mp h]
    rfl
  · intro hgiven before after hsplit hoffset
    exact rest_of_split hsource (hopen.mpr hgiven) hsplit hoffset

/-- **A lexer under any driving.** Whatever is done with the lexer of a source, its offset never goes down as long as
the sum of all advances fits in 64 bits, and its answers tell how it goes on. Unless it is moved by hand it stands
between characters. -/
theorem driving_lawful (source : String) (actions : List Action) :
    ((ofSource source).distance actions < 2 ^ 64 → ∀ front back, actions = front ++ back →
      ((ofSource source).after front).offset ≤ ((ofSource source).after actions).offset) ∧
    Lawful source ((ofSource source).answers actions) ((ofSource source).after actions) ∧
    ((∀ count, .advance count ∉ actions) → IsBoundary source ((ofSource source).after actions).offset ∧
      (Action.next.apply ((ofSource source).after actions)).1 ≠ .misaligned) := by
  have hsource : ((ofSource source).after actions).source = source.toList := source_after _ actions
  have hlawful : Lawful source ((ofSource source).answers actions) ((ofSource source).after actions) := by
    apply lawful_of_finished hsource
    rw [finished_after]
    exact Nat.zero_add _
  refine ⟨?_, hlawful, ?_⟩
  · rintro hfits front back rfl
    apply offset_after_le
    rw [show (ofSource source).offset = 0 from rfl, Nat.zero_add]
    exact hfits
  · intro hactions
    have hskip : ((ofSource source).after actions).skip = 0 := by
      apply skip_after _ _ _ hactions
      exact congrArg Prod.fst (Text.settle_zero source.toList)
    have hboundary := isBoundary_of_skip hsource hskip
    exact ⟨hboundary, fun h => (hlawful.misaligned_iff.mp h).2.2 hboundary⟩

/-- Moved by one byte behind the first token of `1é`, a lexer stands inside a character and cannot read on. -/
theorem driving_lawful_inside_character :
    (ofSource "1é").distance [.next, .advance 1] < 2 ^ 64 ∧
      ((ofSource "1é").after [.next]).offset ≤ ((ofSource "1é").after [.next, .advance 1]).offset ∧
      (Action.next.apply ((ofSource "1é").after [.next, .advance 1])).1 = .misaligned ∧
      ¬ IsBoundary "1é" 2 ∧ (∀ count, .advance count ∉ [Action.next]) ∧ IsBoundary "1é" 1 := by
  have hfits : (ofSource "1é").distance [.next, .advance 1] < 2 ^ 64 := by decide
  have hinside : (Action.next.apply ((ofSource "1é").after [.next, .advance 1])).1 = .misaligned := rfl
  have hread : ∀ count, .advance count ∉ [Action.next] := by simp
  obtain ⟨hmonotone, hlawful, -⟩ := driving_lawful "1é" [.next, .advance 1]
  obtain ⟨-, -, hboundary⟩ := driving_lawful "1é" [.next]
  exact ⟨hfits, hmonotone hfits [.next] [.advance 1] rfl, hinside, (hlawful.misaligned_iff.mp hinside).2.2, hread,
    (hboundary hread).1⟩

/-- Moves by hand alone may add up to less than that and still lead back, with what was read before. -/
example : ((ofSource "1").after [.next, .advance (2 ^ 64 - 1)]).offset = 0 := by decide

end Abacus.Lexer
