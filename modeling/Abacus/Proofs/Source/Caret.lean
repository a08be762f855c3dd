import Abacus.Diagnostic
import Abacus.Proofs.Source.Line
import Abacus.Proofs.Source.Target

/-!
# Where the caret stands

A caret is moved right by the bytes that come before the fault in its line, less the indentation. The line above it
is printed by characters, with its trailing blanks cut off. Both meet at the fault since every character in front of
a fault takes one byte, and since no fault stands in the indentation of its line.
-/

namespace Abacus.Diagnostic

open Text

/-- A line without its indentation. -/
def unindented (line : List Char) : List Char :=
  line.dropWhile fun c => decide (c ∈ [' ', '\t'])

theorem unindented_eq (line : List Char) : unindented line = line.dropWhile isIndent := by
  have hindent : (fun c => decide (c ∈ [' ', '\t'])) = isIndent := by
    funext c
    rw [Bool.eq_iff_iff]
    simp [isIndent]
  rw [unindented, hindent]

/-- What is printed of a line: its indentation and its trailing blanks are not. -/
def shown (line : List Char) : List Char :=
  dropTrailingBlanks (unindented line)

/-- A text ends with a printed line and, in the line below, with a caret under the character of that line at a
column. Only dashes lead to the caret from where the printed line starts. -/
def EndsWithCaret (text : String) (line : List Char) (column : Nat) : Prop :=
  ∃ top label gutter : List Char,
    text.toList = top ++ '\n' :: (label ++ line ++ '\n' :: (gutter ++ (List.replicate column '-' ++ ['^']))) ∧
      label.length = gutter.length ∧ '\n' ∉ label ++ line ∧ '\n' ∉ gutter

/-- A fault is shown with its caret at a column of a line, unless the column is too far to the right. -/
structure PointsAt (fault : Fault) (source : String) (line : List Char) (column : Nat) : Prop where
  eq_none_iff : render? fault source = none ↔ 65535 ≤ column
  endsWithCaret : ∀ text, render? fault source = some text → EndsWithCaret text (shown line) column

/-! ### The text of a diagnostic -/

theorem toList_alignRight (fill : Char) (width : Nat) (text : String) :
    (alignRight fill width text).toList = List.replicate (width - text.length) fill ++ text.toList := by
  rw [alignRight, String.toList_append, String.toList_ofList]

theorem endsWithCaret_alignRight (top : String) {number : String} (hnumber : '\n' ∉ number.toList)
    {line : List Char} (hline : '\n' ∉ line) (column : Nat) :
    EndsWithCaret (top ++ "\n" ++ number ++ " | " ++ String.ofList line ++ "\n"
      ++ alignRight ' ' (number.length + 2) "|" ++ " " ++ alignRight '-' (column + 1) "^") line column := by
  have hmargin : (alignRight ' ' (number.length + 2) "|").toList =
      List.replicate (number.length + 1) ' ' ++ ['|'] := toList_alignRight _ _ _
  have hcaret : (alignRight '-' (column + 1) "^").toList = List.replicate column '-' ++ ['^'] :=
    toList_alignRight _ _ _
  refine ⟨top.toList, number.toList ++ [' ', '|', ' '], List.replicate (number.length + 1) ' ' ++ ['|', ' '],
    ?_, ?_, ?_, ?_⟩
  · simp [hmargin, hcaret]
  · simp [String.length_toList]
  · simp [hnumber, hline]
  · simp

/-- The caret of a fault stands by the line of its position, as far as this line is printed. -/
theorem pointsAt_of_caretWidth {fault : Fault} {source : String} {line : List Char} {column : Nat}
    (hshown : shown (SourceLine.ofPosition source fault.position).text = shown line)
    (hwidth : caretWidth (.ofPosition source fault.position) = column + 1) (hline : '\n' ∉ line) :
    PointsAt fault source line column := by
  have hfeed : '\n' ∉ shown line := by
    intro hmem
    apply hline
    exact (List.dropWhile_suffix _).subset (mem_of_mem_dropTrailing hmem)
  have hprinted : shownText (.ofPosition source fault.position) = String.ofList (shown line) := by
    rw [← hshown, shown, unindented_eq]
    rfl
  have hrender := render?.eq_1 fault source
  simp only [hwidth, hprinted, widestCaret] at hrender
  constructor
  · rw [hrender, ite_eq_right_iff]
    simp only [reduceCtorEq, imp_false]
    omega
  · intro text htext
    obtain ⟨-, rfl⟩ := Option.ite_some_none_eq_some.mp (hrender.symm.trans htext)
    exact endsWithCaret_alignRight _ (feed_notMem_toString _) hfeed column

/-! ### The column of a caret -/

theorem isIndent_eq_false_of_isGap {c : Char} (h : isGap c = false) : isIndent c = false := by
  simp only [isGap, Bool.or_eq_false_iff] at h
  simp [isIndent, h]

theorem isFeed_eq_false_of_isGap {c : Char} (h : isGap c = false) : isFeed c = false := by
  simp only [isGap, Bool.or_eq_false_iff] at h
  simp [isFeed, h]

theorem feed_notMem {line : List Char} (h : ∀ c ∈ line, isFeed c = false) : '\n' ∉ line :=
  fun hmem => absurd (h '\n' hmem) (by decide)

theorem unindented_append (lead : List Char) {tail : List Char} (h : ∀ c ∈ tail.head?, isIndent c = false) :
    unindented (lead ++ tail) = unindented lead ++ tail := by
  rw [unindented_eq, unindented_eq]
  have htail : tail.dropWhile isIndent = tail := by
    cases tail with
    | nil => rfl
    | cons c tail => exact List.dropWhile_cons_of_neg (by simp [h c rfl])
  by_cases hlead : (lead.dropWhile isIndent).isEmpty = true
  · rw [List.dropWhile_append, if_pos hlead, htail, List.isEmpty_iff.mp hlead, List.nil_append]
  · rw [List.dropWhile_append, if_neg hlead]

/-- The caret stands under what follows `lead` if this is no indentation. -/
theorem caretWidth_eq {line : SourceLine} {lead tail : List Char} (htext : line.text = lead ++ tail)
    (hcolumn : line.column = lead.length) (htail : ∀ c ∈ tail.head?, isIndent c = false) :
    caretWidth line = (unindented lead).length + 1 := by
  have hlengths : (line.text.takeWhile isIndent).length + (unindented line.text).length = line.text.length := by
    rw [unindented_eq, ← List.length_append, List.takeWhile_append_dropWhile]
  rw [htext, unindented_append lead htail, List.length_append, List.length_append] at hlengths
  rw [caretWidth, hcolumn, htext]
  omega

theorem shown_append_feed (line : List Char) {feed : List Char} (hfeed : ∀ c ∈ feed, isFeed c = true) :
    shown (line ++ feed) = shown line := by
  have hblank : ∀ c ∈ feed, isBlank c = true := by
    intro c hmem
    rw [eq_of_beq (hfeed c hmem)]
    decide
  have hindent : ∀ c ∈ feed.head?, isIndent c = false := by
    intro c hhead
    rw [eq_of_beq (hfeed c (List.mem_of_mem_head? hhead))]
    decide
  rw [shown, unindented_append line hindent, dropTrailingBlanks, dropTrailing_append hblank]
  rfl

section Fault

variable {fault : Fault} {source : String}

theorem exists_pointsAt_of_isTarget {token : Token} {before rest : List Char} {first : Char}
    (hlength : source.utf8ByteSize < 2 ^ 32) (htarget : token.IsTarget source before first rest)
    (hposition : token.position = fault.position) :
    ∃ above lead tail below, IsLine source.toList above lead (first :: tail) below ∧
      token.position.toNat = byteLength (above ++ lead) ∧
      PointsAt fault source (lead ++ first :: tail) (unindented lead).length := by
  have hfirst : isIndent first = false := isIndent_eq_false_of_isGap htarget.isGap_first
  obtain ⟨above, lead, line, below, rfl, hrest, hline⟩ := exists_isLine before (first :: rest)
  rw [← htarget.source_eq] at hline
  -- the first character of a token is no line feed, so it is on the line and not below it
  obtain ⟨tail, rfl⟩ : ∃ tail, line = first :: tail := by
    cases line with
    | nil =>
      have hfeed : isFeed first = true := hline.feed_below first (by rw [← List.nil_append below, ← hrest]; rfl)
      rw [isFeed_eq_false_of_isGap htarget.isGap_first] at hfeed
      exact absurd hfeed (by decide)
    | cons c tail =>
      obtain ⟨rfl, -⟩ := List.cons.inj hrest
      exact ⟨tail, rfl⟩
  have hstart : token.position.toNat = byteLength (above ++ lead) := by
    have hsize : byteLength (above ++ lead) + byteLength (first :: rest) = source.utf8ByteSize := by
      rw [← byteLength_append, ← htarget.source_eq, byteLength_toList]
    rw [htarget.eq_read, Token.position_token]
    exact Token.toNat_position_of_le (show _ ≤ 2 ^ 32 - 1 by omega)
  refine ⟨above, lead, tail, below, hline, hstart, ?_⟩
  obtain ⟨feed, htext, hcolumn, hfeed⟩ :=
    SourceLine.exists_ofPosition_of_isLine hline (List.cons_ne_nil _ _) (hposition ▸ hstart)
  have hnarrow : byteLength lead = lead.length :=
    byteLength_of_isNarrow fun c hmem => htarget.isNarrow c (List.mem_append_right above hmem)
  apply pointsAt_of_caretWidth
  · rw [htext, shown_append_feed _ hfeed]
  · rw [List.append_assoc] at htext
    exact caretWidth_eq htext (hcolumn.trans hnarrow) (by simpa using hfirst)
  · exact feed_notMem hline.no_feed

theorem exists_pointsAt_of_end (hnarrow : IsNarrow source.toList)
    (hposition : fault.position.toNat = source.utf8ByteSize) :
    ∃ segment, IsLastSegment source.toList segment ∧
      PointsAt fault source (dropLineEnd segment) (unindented (dropLineEnd segment)).length := by
  obtain ⟨segment, hlast, htext, hcolumn⟩ :=
    SourceLine.exists_ofPosition_of_end (show byteLength source.toList ≤ fault.position.toNat by
      rw [byteLength_toList, hposition])
  refine ⟨segment, hlast, ?_⟩
  have hnarrowLine : byteLength (dropLineEnd segment) = (dropLineEnd segment).length := by
    apply byteLength_of_isNarrow
    intro c hmem
    obtain ⟨above, hsource, -⟩ := hlast.above
    apply hnarrow c
    rw [hsource]
    exact List.mem_append_right above (mem_of_mem_dropTrailing hmem)
  apply pointsAt_of_caretWidth
  · rw [htext]
  · exact caretWidth_eq (htext.trans (List.append_nil _).symm) (hcolumn.trans hnarrowLine) (by simp)
  · exact feed_notMem hlast.no_feed_dropLineEnd

/-- A source that cannot be worked out is shown with a caret under the token that is at fault, or behind the last
segment of the source if it ends too early. Above the caret stands the first character of the token, and nothing at
all if the line has only blanks from there on. -/
theorem caret_under_fault (hlength : source.utf8ByteSize < 2 ^ 32) (h : interpret source = .error fault) :
    (fault.cause = .unexpectedEndOfInput ∧ fault.position.toNat = source.utf8ByteSize ∧
      ∃ segment, IsLastSegment source.toList segment ∧
        PointsAt fault source (dropLineEnd segment) (unindented (dropLineEnd segment)).length) ∨
    (fault.cause ≠ .unexpectedEndOfInput ∧
      ∃ token ∈ tokenize source, token.kind ≠ .endOfInput ∧ token.position = fault.position ∧
        (∀ other ∈ tokenize source, other.position = fault.position → other = token) ∧
        ∃ above lead first tail below, IsLine source.toList above lead (first :: tail) below ∧
          token.position.toNat = byteLength (above ++ lead) ∧
          PointsAt fault source (lead ++ first :: tail) (unindented lead).length ∧
          (shown (lead ++ first :: tail))[(unindented lead).length]? =
            if (first :: tail).all isBlank then none else some first) := by
  rcases target_of_interpret hlength h with ⟨rfl, hnarrow⟩ |
    ⟨hcause, token, before, first, rest, hposition, htarget⟩
  · have hend : (Position.ofOffset source.utf8ByteSize).toNat = source.utf8ByteSize :=
      Token.toNat_position_of_le (Nat.le_pred_of_lt hlength)
    exact Or.inl ⟨rfl, hend, exists_pointsAt_of_end hnarrow hend⟩
  · obtain ⟨above, lead, tail, below, hline, hstart, hpoints⟩ :=
      exists_pointsAt_of_isTarget hlength htarget hposition
    have hkind : token.kind ≠ .endOfInput := by
      rw [htarget.eq_read]
      exact Lexeme.kind_read_ne_endOfInput first rest
    refine Or.inr ⟨hcause, token, htarget.mem_tokenize, hkind, hposition, ?_, above, lead, first, tail, below,
      hline, hstart, hpoints, ?_⟩
    · intro other hmem hother
      exact Token.eq_of_mem_tokenize hlength hmem htarget.mem_tokenize (hother.trans hposition.symm)
    · have hfirst : isIndent first = false := isIndent_eq_false_of_isGap htarget.isGap_first
      rw [shown, unindented_append lead (by simpa using hfirst)]
      exact getElem?_dropTrailing_append _ _

end Fault

/-- The second line of `1+`, ` 2*é` is shown with the caret under its letter, though the line starts with a blank. -/
theorem caret_under_letter :
    interpret "1+\n 2*é" = .error ⟨.illegalToken "é", .ofOffset 6⟩ ∧
      ∃ above lead first tail below, IsLine "1+\n 2*é".toList above lead (first :: tail) below ∧
        byteLength (above ++ lead) = 6 ∧
        PointsAt ⟨.illegalToken "é", .ofOffset 6⟩ "1+\n 2*é" (lead ++ first :: tail)
          (unindented lead).length := by
  have hinterpret : interpret "1+\n 2*é" = .error ⟨.illegalToken "é", .ofOffset 6⟩ := by decide +kernel
  rcases caret_under_fault (by decide) hinterpret with ⟨hend, -⟩ |
    ⟨-, token, -, -, hposition, -, above, lead, first, tail, below, hline, hstart, hpoints, -⟩
  · simp at hend
  · rw [hposition] at hstart
    exact ⟨hinterpret, above, lead, first, tail, below, hline, hstart.symm, hpoints⟩

example : render? ⟨.illegalToken "é", .ofOffset 6⟩ "1+\n 2*é" =
    some ("Error: IllegalToken (Unexpected token: `é`, expected an integer or an operator)\n" ++
      "  |\n" ++
      "2 | 2*é\n" ++
      "  | --^") := by decide

end Abacus.Diagnostic
