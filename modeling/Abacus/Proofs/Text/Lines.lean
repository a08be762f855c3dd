import Abacus.Text.Blank
import Abacus.Text.Segments
import Mathlib.Data.List.DropRight

/-!
# Lines of a text

A list that ends where a segment does can be cut apart from what follows it: the segments of both together are the
segments of the one and then those of the other. What stands before the first ending item, with that item, is the
first segment. Trailing characters of a class can be cut off a text, and come back when they are appended. A number is
written within a line.
-/

namespace Abacus.Text

section Segments

variable {α : Type} {isEnd : α → Bool}

theorem segmentsFrom_eq (items current : List α) (done : List (List α)) :
    segmentsFrom isEnd items current done = done.reverse ++ segmentsFrom isEnd items current [] := by
  induction items generalizing current done with
  | nil => cases current <;> simp [segmentsFrom]
  | cons item items ih =>
    rw [segmentsFrom, segmentsFrom]
    split
    · rw [ih, ih [] [(item :: current).reverse], List.reverse_cons, List.append_assoc]
      rfl
    · exact ih (item :: current) done

theorem segmentsFrom_append {last : α} (hlast : isEnd last = true) (front more current : List α)
    (done : List (List α)) :
    segmentsFrom isEnd (front ++ [last] ++ more) current done =
      segmentsFrom isEnd more [] (segmentsFrom isEnd (front ++ [last]) current done).reverse := by
  induction front generalizing current done with
  | nil => simp [segmentsFrom, hlast]
  | cons item front ih =>
    simp only [List.cons_append, segmentsFrom]
    split
    · exact ih [] _
    · exact ih (item :: current) done

/-- The segments of a list that ends a segment come before those of what follows it. -/
theorem segments_append {items : List α} (h : ∀ last ∈ items.getLast?, isEnd last = true) (more : List α) :
    segments isEnd (items ++ more) = segments isEnd items ++ segments isEnd more := by
  rcases List.eq_nil_or_concat items with rfl | ⟨front, last, rfl⟩
  · rfl
  · have hlast : isEnd last = true := h last (by simp)
    rw [List.concat_eq_append, segments, segmentsFrom_append hlast, segmentsFrom_eq, List.reverse_reverse]
    rfl

theorem segmentsFrom_of_not_isEnd {body : List α} (hbody : ∀ item ∈ body, isEnd item = false)
    (more current : List α) (done : List (List α)) :
    segmentsFrom isEnd (body ++ more) current done = segmentsFrom isEnd more (body.reverse ++ current) done := by
  induction body generalizing current with
  | nil => rfl
  | cons item body ih =>
    have hitem : ¬ isEnd item = true := by simp [hbody item List.mem_cons_self]
    have hrest : ∀ other ∈ body, isEnd other = false := fun other hmem => hbody other (List.mem_cons_of_mem _ hmem)
    rw [List.cons_append, segmentsFrom, if_neg hitem, ih hrest, List.reverse_cons, List.append_assoc]
    rfl

/-- The first segment goes up to the first item that ends one. -/
theorem segments_cons {body : List α} {last : α} (hbody : ∀ item ∈ body, isEnd item = false)
    (hlast : isEnd last = true) (more : List α) :
    segments isEnd (body ++ last :: more) = (body ++ [last]) :: segments isEnd more := by
  rw [segments, segmentsFrom_of_not_isEnd hbody, segmentsFrom, if_pos hlast, segmentsFrom_eq]
  simp [segments]

theorem segments_singleton {body : List α} (hbody : ∀ item ∈ body, isEnd item = false) (hne : body ≠ []) :
    segments isEnd body = [body] := by
  have hopen := segmentsFrom_of_not_isEnd hbody [] [] []
  rw [List.append_nil, List.append_nil] at hopen
  rw [segments, hopen]
  obtain ⟨first, rest, hreverse⟩ := List.exists_cons_of_ne_nil (mt List.reverse_eq_nil_iff.mp hne)
  rw [hreverse, segmentsFrom, ← hreverse]
  simp

/-- A list in which no item but the last one may end a segment is one segment. -/
theorem segments_line {line : List α} (hne : line ≠ []) (hline : ∀ item ∈ line.dropLast, isEnd item = false) :
    segments isEnd line = [line] := by
  rcases List.eq_nil_or_concat line with rfl | ⟨body, last, rfl⟩
  · exact absurd rfl hne
  · rw [List.concat_eq_append] at hne hline ⊢
    rw [List.dropLast_concat] at hline
    by_cases hlast : isEnd last = true
    · exact segments_cons hline hlast []
    · apply segments_singleton _ hne
      intro item hmem
      rcases List.mem_append.mp hmem with hbody | hitem
      · exact hline item hbody
      · rw [List.mem_singleton.mp hitem]
        exact Bool.not_eq_true _ ▸ hlast

theorem flatten_segmentsFrom (items current : List α) (done : List (List α)) :
    (segmentsFrom isEnd items current done).flatten = done.reverse.flatten ++ current.reverse ++ items := by
  induction items generalizing current done with
  | nil => cases current <;> simp [segmentsFrom]
  | cons item items ih =>
    rw [segmentsFrom]
    split <;> simp [ih]

theorem flatten_segments (items : List α) : (segments isEnd items).flatten = items := by
  rw [segments, flatten_segmentsFrom]
  rfl

end Segments

section Trailing

variable {inClass : Char → Bool}

theorem exists_dropTrailing (inClass : Char → Bool) (text : List Char) :
    ∃ tail, text = dropTrailing inClass text ++ tail ∧ ∀ c ∈ tail, inClass c = true :=
  ⟨text.rtakeWhile inClass, List.rdropWhile_append_rtakeWhile.symm,
    fun _ => List.mem_rtakeWhile_imp⟩

theorem getLast?_dropTrailing (inClass : Char → Bool) (text : List Char) :
    ∀ c ∈ (dropTrailing inClass text).getLast?, inClass c = false := by
  intro c hlast
  rw [dropTrailing, List.getLast?_reverse] at hlast
  have hhead := List.head?_dropWhile_not inClass text.reverse
  rw [Option.mem_def.mp hlast] at hhead
  exact hhead

theorem dropTrailing_append {tail : List Char} (htail : ∀ c ∈ tail, inClass c = true) (text : List Char) :
    dropTrailing inClass (text ++ tail) = dropTrailing inClass text := by
  rw [dropTrailing, List.reverse_append, List.dropWhile_append_of_pos (by simpa using htail)]
  rfl

theorem dropTrailing_exact {text tail : List Char} (htext : ∀ c ∈ text.getLast?, inClass c = false)
    (htail : ∀ c ∈ tail, inClass c = true) : dropTrailing inClass (text ++ tail) = text := by
  rw [dropTrailing_append htail]
  apply List.rdropWhile_eq_self_iff.mpr
  intro hne
  simp [htext _ (List.getLast?_eq_some_getLast hne)]

theorem mem_of_mem_dropTrailing {text : List Char} {c : Char} (h : c ∈ dropTrailing inClass text) : c ∈ text :=
  (List.rdropWhile_prefix inClass text).subset h

/-- What comes behind a text keeps its first character, unless all of it is cut off. -/
theorem getElem?_dropTrailing_append (lead tail : List Char) :
    (dropTrailing inClass (lead ++ tail))[lead.length]? = if tail.all inClass then none else tail.head? := by
  by_cases hall : tail.all inClass = true
  · rw [if_pos hall, dropTrailing_append (List.all_eq_true.mp hall)]
    apply List.getElem?_eq_none
    exact (List.rdropWhile_prefix inClass lead).length_le
  · rw [if_neg hall]
    have hne : dropTrailing inClass tail ≠ [] := by
      intro hnil
      apply hall
      exact List.all_eq_true.mpr (List.rdropWhile_eq_nil_iff.mp hnil)
    have hsplit : dropTrailing inClass (lead ++ tail) = lead ++ dropTrailing inClass tail := by
      have hkept : ¬ (tail.reverse.dropWhile inClass).isEmpty = true := by
        intro hempty
        exact hne (List.reverse_eq_nil_iff.mpr (List.isEmpty_iff.mp hempty))
      rw [dropTrailing, List.reverse_append, List.dropWhile_append, if_neg hkept, List.reverse_append,
        List.reverse_reverse]
      rfl
    obtain ⟨cut, htail, -⟩ := exists_dropTrailing inClass tail
    obtain ⟨first, rest, hcons⟩ := List.exists_cons_of_ne_nil hne
    rw [hsplit, List.getElem?_append_right (Nat.le_refl _), Nat.sub_self, hcons, htail, hcons]
    rfl

theorem isBlank_of_isLineEnd {c : Char} (h : isLineEnd c = true) : isBlank c = true := by
  simp only [isLineEnd, Bool.or_eq_true, beq_iff_eq] at h
  rcases h with rfl | rfl <;> decide

/-- A text is blank exactly when it is without the ends of its last line. -/
theorem isBlankText_dropLineEnd (text : List Char) : isBlankText (dropLineEnd text) = isBlankText text := by
  obtain ⟨tail, htext, htail⟩ := exists_dropTrailing isLineEnd text
  have hblank : tail.all isBlank = true := List.all_eq_true.mpr fun c hmem => isBlank_of_isLineEnd (htail c hmem)
  calc isBlankText (dropLineEnd text)
      = ((dropTrailing isLineEnd text).all isBlank && tail.all isBlank) := by
        rw [hblank, Bool.and_true]
        rfl
    _ = (dropTrailing isLineEnd text ++ tail).all isBlank := List.all_append.symm
    _ = isBlankText text := by rw [← htext, isBlankText]

end Trailing

section Line

def isFeed (c : Char) : Bool :=
  c == '\n'

/-- A line of a text that is cut in two places: `above` and `below` it the text stops or a line feed divides. -/
structure IsLine (text above lead tail below : List Char) : Prop where
  text_eq : text = above ++ (lead ++ tail ++ below)
  feed_above : ∀ c ∈ above.getLast?, isFeed c = true
  feed_below : ∀ c ∈ below.head?, isFeed c = true
  no_feed : ∀ c ∈ lead ++ tail, isFeed c = false

/-- The last segment of a text that is cut behind every line feed. -/
structure IsLastSegment (text segment : List Char) : Prop where
  above : ∃ above, text = above ++ segment ∧ ∀ c ∈ above.getLast?, isFeed c = true
  no_feed : ∀ c ∈ segment.dropLast, isFeed c = false
  eq_nil : segment = [] → text = []

/-- Every text can be cut behind the last line feed that it has. -/
theorem exists_append_lead (text : List Char) :
    ∃ above lead, text = above ++ lead ∧ (∀ c ∈ above.getLast?, isFeed c = true) ∧
      ∀ c ∈ lead, isFeed c = false := by
  obtain ⟨lead, htext, hlead⟩ := exists_dropTrailing (fun c => !isFeed c) text
  refine ⟨_, lead, htext, ?_, ?_⟩
  · intro c hlast
    simpa using getLast?_dropTrailing _ text c hlast
  · intro c hmem
    simpa using hlead c hmem

theorem exists_isLine (before rest : List Char) :
    ∃ above lead tail below, before = above ++ lead ∧ rest = tail ++ below ∧
      IsLine (before ++ rest) above lead tail below := by
  obtain ⟨above, lead, rfl, habove, hlead⟩ := exists_append_lead before
  refine ⟨above, lead, rest.takeWhile (fun c => !isFeed c), rest.dropWhile (fun c => !isFeed c), rfl,
    List.takeWhile_append_dropWhile.symm, ?_, habove, ?_, ?_⟩
  · rw [List.append_assoc, List.append_assoc, List.takeWhile_append_dropWhile]
  · intro c hhead
    have hfirst := List.head?_dropWhile_not (fun c => !isFeed c) rest
    rw [Option.mem_def.mp hhead] at hfirst
    simpa using hfirst
  · intro c hmem
    rcases List.mem_append.mp hmem with hleft | hright
    · exact hlead c hleft
    · simpa using List.all_eq_true.mp List.all_takeWhile c hright

theorem exists_segments_of_isLine {text above lead tail below : List Char} (h : IsLine text above lead tail below)
    (htail : tail ≠ []) :
    ∃ feed more, segments isFeed text = segments isFeed above ++ (lead ++ tail ++ feed) :: more ∧
      ∀ c ∈ feed, isFeed c = true := by
  rw [h.text_eq, segments_append h.feed_above]
  cases hbelow : below with
  | nil =>
    have hne : lead ++ tail ≠ [] := by simp [htail]
    refine ⟨[], [], ?_, by simp⟩
    rw [List.append_nil, segments_singleton h.no_feed hne]
  | cons c below =>
    have hfeed : isFeed c = true := h.feed_below c (by rw [hbelow]; rfl)
    refine ⟨[c], segments isFeed below, ?_, by simpa using hfeed⟩
    rw [segments_cons h.no_feed hfeed]

theorem IsLastSegment.getLastD_segments {text segment : List Char} (h : IsLastSegment text segment) :
    (segments isFeed text).getLastD [] = segment := by
  obtain ⟨above, htext, habove⟩ := h.above
  by_cases hnil : segment = []
  · rw [h.eq_nil hnil, hnil]
    rfl
  · rw [htext, segments_append habove, segments_line hnil h.no_feed]
    simp

theorem exists_isLastSegment (text : List Char) : ∃ segment, IsLastSegment text segment := by
  rcases List.eq_nil_or_concat text with rfl | ⟨body, last, rfl⟩
  · exact ⟨[], ⟨⟨[], rfl, by simp⟩, by simp, fun _ => rfl⟩⟩
  · obtain ⟨above, lead, rfl, habove, hlead⟩ := exists_append_lead body
    have htext : (above ++ lead).concat last = above ++ (lead ++ [last]) := by simp
    exact ⟨lead ++ [last], ⟨⟨above, htext, habove⟩, by rwa [List.dropLast_concat], by simp⟩⟩

theorem IsLastSegment.no_feed_dropLineEnd {text segment : List Char} (h : IsLastSegment text segment) :
    ∀ c ∈ dropLineEnd segment, isFeed c = false := by
  obtain ⟨tail, hsegment, -⟩ := exists_dropTrailing isLineEnd segment
  have hlast := getLast?_dropTrailing isLineEnd segment
  intro c hmem
  rcases List.eq_nil_or_concat (dropTrailing isLineEnd segment) with hnil | ⟨body, last, hbody⟩
  · rw [dropLineEnd, hnil] at hmem
    simp at hmem
  · rw [hbody, List.concat_eq_append] at hsegment hlast
    rw [dropLineEnd, hbody, List.concat_eq_append] at hmem
    rcases List.mem_append.mp hmem with hfront | hitem
    · apply h.no_feed
      rw [hsegment, List.append_assoc, List.singleton_append, List.dropLast_append_cons]
      exact List.mem_append_left _ hfront
    · rw [List.mem_singleton.mp hitem]
      have hend : isLineEnd last = false := hlast last (by simp)
      exact (Bool.or_eq_false_iff.mp hend).1

end Line

/-! ### Numbers within a line -/

theorem feed_notMem_toString (number : Nat) : '\n' ∉ (toString number).toList := by
  rw [Nat.toString_eq_ofList_toDigits, String.toList_ofList]
  intro hmem
  have hdigit : '\n'.isDigit = true := Nat.isDigit_of_mem_toDigits (by decide) (by decide) hmem
  exact absurd hdigit (by decide)

theorem feed_notMem_toString_int (number : Int) : '\n' ∉ (toString number).toList := by
  cases number with
  | ofNat magnitude => exact feed_notMem_toString magnitude
  | negSucc magnitude =>
    have htext : toString (Int.negSucc magnitude) = "-" ++ toString (magnitude + 1) := rfl
    rw [htext, String.toList_append, List.mem_append, not_or]
    exact ⟨by decide, feed_notMem_toString _⟩

end Abacus.Text
