import Abacus.Proofs.Source.Line
import Abacus.Proofs.Text.Encoded
import Abacus.Proofs.Token.Stream

/-!
# Which line is looked up

`SourceLine.Locates` says what a reader expects to be shown for a byte offset: the line that the offset lies on, with
its line feed, numbered by the line feeds in front of the offset; or, from the end of the source on, its last line
without line ends. The offset may lie inside a character. The search walks over segments of characters and counts
them, so its counts are compared with those of bytes: a line feed is one byte, and it ends one segment.
-/

namespace Abacus

namespace Text

/-! ### Line feeds among characters and bytes -/

theorem length_flatMap_utf8EncodeChar (text : List Char) :
    (text.flatMap String.utf8EncodeChar).length = byteLength text := by
  induction text with
  | nil => rfl
  | cons c text ih => rw [List.flatMap_cons, List.length_append, ih, String.length_utf8EncodeChar, byteLength_cons]

theorem count_feed_utf8EncodeChar (c : Char) : (String.utf8EncodeChar c).count 10 = [c].count '\n' := by
  by_cases hfeed : c = '\n'
  · subst hfeed
    decide
  · have hbyte : (10 : UInt8) ∉ String.utf8EncodeChar c := fun hmem => hfeed (eq_feed_of_mem_utf8EncodeChar hmem)
    rw [List.count_eq_zero_of_not_mem hbyte, List.count_eq_zero_of_not_mem (by simpa using Ne.symm hfeed)]

theorem count_feed_flatMap (text : List Char) :
    (text.flatMap String.utf8EncodeChar).count 10 = text.count '\n' := by
  induction text with
  | nil => rfl
  | cons c text ih =>
    rw [List.flatMap_cons, List.count_append, ih, count_feed_utf8EncodeChar, ← List.count_append, List.singleton_append]

/-- No line feed comes before the end of a line, so those in front of a place on it are all above the line. -/
theorem count_feed_take {source : String} {above body rest : List Char} {column : Nat}
    (hsource : source.toList = above ++ (body ++ rest)) (hbody : '\n' ∉ body) (hcolumn : column ≤ byteLength body) :
    ((bytes source).take (byteLength above + column)).count 10 = above.count '\n' := by
  have hlead : ((body.flatMap String.utf8EncodeChar).take column).count 10 = 0 := by
    have hle := ((body.flatMap String.utf8EncodeChar).take_sublist column).count_le 10
    rw [count_feed_flatMap, List.count_eq_zero_of_not_mem hbody] at hle
    exact Nat.le_zero.mp hle
  rw [← length_flatMap_utf8EncodeChar] at hcolumn
  rw [bytes_eq_flatMap, hsource, List.flatMap_append, List.flatMap_append, ← length_flatMap_utf8EncodeChar above,
    List.take_length_add_append, List.take_append_of_le_length hcolumn, List.count_append, hlead,
    count_feed_flatMap, Nat.add_zero]

/-- An offset within a text lies in one of its characters. -/
theorem exists_char_of_lt {text : List Char} {offset : Nat} (h : offset < byteLength text) :
    ∃ before c rest skip, text = before ++ c :: rest ∧ byteLength before + skip = offset ∧ skip < c.utf8Size := by
  obtain ⟨before, htext, hoffset, hnext⟩ := exists_settle offset text
  cases hrest : (settle offset text).2 with
  | nil =>
    rw [hrest, List.append_nil] at htext
    rw [← htext] at hoffset
    omega
  | cons c rest =>
    rw [hrest] at htext hnext
    exact ⟨before, c, rest, _, htext, hoffset, hnext c rfl⟩

/-! ### The number of segments -/

/-- How many segments a text has: each line feed ends one, and so does the end of the text behind anything else. -/
def segmentCount (text : List Char) : Nat :=
  text.count '\n' + if text.getLastD '\n' = '\n' then 0 else 1

theorem length_segmentsFrom (text current : List Char) (hcurrent : ∀ c ∈ current.head?, c ≠ '\n')
    (done : List (List Char)) :
    (segmentsFrom isFeed text current done).length =
      done.length + text.count '\n' + if (text.reverse ++ current).headD '\n' = '\n' then 0 else 1 := by
  induction text generalizing current done with
  | nil =>
    cases current with
    | nil => simp [segmentsFrom]
    | cons c current => simpa [segmentsFrom] using hcurrent c rfl
  | cons c text ih =>
    have hreverse : (c :: text).reverse ++ current = text.reverse ++ c :: current := by simp
    rw [segmentsFrom, hreverse]
    split
    · rename_i hfeed
      obtain rfl : c = '\n' := beq_iff_eq.mp hfeed
      have hhead : (text.reverse ++ []).headD '\n' = (text.reverse ++ '\n' :: current).headD '\n' := by
        cases text.reverse <;> simp
      rw [ih [] (by simp), hhead, List.length_cons, List.count_cons_self]
      omega
    · rename_i hother
      have hne : c ≠ '\n' := mt beq_iff_eq.mpr hother
      rw [ih (c :: current) (by simpa using hne), List.count_cons_of_ne hne]

theorem length_segments (text : List Char) : (segments isFeed text).length = segmentCount text := by
  have hlength := length_segmentsFrom text [] (by simp) []
  rwa [List.append_nil, List.headD_eq_head?_getD, List.head?_reverse, ← List.getLastD_eq_getLast?, List.length_nil,
    Nat.zero_add] at hlength

theorem segmentCount_of_feed {text : List Char} (h : ∀ c ∈ text.getLast?, c = '\n') :
    segmentCount text = text.count '\n' := by
  have hlast : text.getLastD '\n' = '\n' := by
    rw [List.getLastD_eq_getLast?]
    cases hgetLast : text.getLast? with
    | none => rfl
    | some c => exact h c hgetLast
  rw [segmentCount, if_pos hlast, Nat.add_zero]

end Text

namespace SourceLine

open Text

/-- What is to be shown for a byte offset: within the source the line that the offset lies on, from the end of the
source on its last segment without line ends. -/
inductive Locates (source : String) (offset : Nat) : SourceLine → Prop
  | within {above body feed below : List Char} {column : Nat}
      (hsource : source.toList = above ++ (body ++ feed ++ below)) (habove : ∀ c ∈ above.getLast?, c = '\n')
      (hbody : '\n' ∉ body) (hfeed : feed = ['\n'] ∨ feed = [] ∧ below = [])
      (hcolumn : column < byteLength (body ++ feed)) (hoffset : byteLength above + column = offset) :
      Locates source offset ⟨1 + ((bytes source).take offset).count 10, body ++ feed, column⟩
  | pastEnd {segment text ends : List Char} (hoffset : source.utf8ByteSize ≤ offset)
      (hsegment : IsLastSegment source.toList segment) (hends : segment = text ++ ends)
      (hcut : ∀ c ∈ ends, c = '\n' ∨ c = '\r') (hkept : ∀ c ∈ text.getLast?, c ≠ '\n' ∧ c ≠ '\r') :
      Locates source offset ⟨max 1 (segmentCount source.toList), text, byteLength text⟩

variable {source : String} {position : Position}

/-- A line is a segment of its source, and those in front of it are the segments of what is above. -/
theorem segments_of_line {above body feed below : List Char} (habove : ∀ c ∈ above.getLast?, c = '\n')
    (hbody : '\n' ∉ body) (hfeed : feed = ['\n'] ∨ feed = [] ∧ below = []) (hne : body ++ feed ≠ []) :
    segments isFeed (above ++ (body ++ feed ++ below)) =
      segments isFeed above ++ (body ++ feed) :: segments isFeed below := by
  have hcut : ∀ c ∈ above.getLast?, isFeed c = true := fun c hlast => beq_iff_eq.mpr (habove c hlast)
  have hopen : ∀ c ∈ body, isFeed c = false := by
    intro c hmem
    exact beq_eq_false_iff_ne.mpr (ne_of_mem_of_not_mem hmem hbody)
  rw [segments_append hcut]
  rcases hfeed with rfl | ⟨rfl, rfl⟩
  · rw [List.append_assoc, List.singleton_append, segments_cons hopen rfl]
  · rw [List.append_nil] at hne
    rw [List.append_nil, List.append_nil, segments_singleton hopen hne]
    rfl

theorem Locates.ofPosition_eq {line : SourceLine} (h : Locates source position.toNat line) :
    ofPosition source position = line := by
  rw [SourceLine.ofPosition_eq]
  cases h with
  | @within above body feed below column hsource habove hbody hfeed hcolumn hoffset =>
    have hne : body ++ feed ≠ [] := by
      intro hnil
      rw [hnil] at hcolumn
      exact absurd hcolumn (Nat.not_lt_zero column)
    have hfront : byteLength (segments isFeed above).flatten = byteLength above := by rw [flatten_segments]
    have hstart : 0 + byteLength (segments isFeed above).flatten ≤ position.toNat := by omega
    have hstop : position.toNat < 0 + byteLength (segments isFeed above).flatten + byteLength (body ++ feed) := by
      omega
    -- the line feed that ends the line is its last byte, so the column is not behind it
    have hle : column ≤ byteLength body := by
      rcases hfeed with rfl | ⟨rfl, -⟩
      · rw [byteLength_append] at hcolumn
        exact Nat.le_of_lt_succ hcolumn
      · rw [List.append_nil] at hcolumn
        exact Nat.le_of_lt hcolumn
    have hcount : ((bytes source).take position.toNat).count 10 = above.count '\n' := by
      rw [← hoffset]
      exact count_feed_take (hsource.trans (by rw [List.append_assoc])) hbody hle
    have hcolumnEq : position.toNat - (0 + byteLength (segments isFeed above).flatten) = column := by omega
    rw [hsource, segments_of_line habove hbody hfeed hne, search_append 1 [] _ hstart hstop, length_segments,
      segmentCount_of_feed habove, hcount, hcolumnEq]
  | @pastEnd segment text ends hoffset hsegment hends hcut hkept =>
    have hend : 0 + byteLength (segments isFeed source.toList).flatten ≤ position.toNat := by
      rw [flatten_segments, byteLength_toList, Nat.zero_add]
      exact hoffset
    have htext : dropLineEnd segment = text := by
      rw [hends]
      apply dropTrailing_exact
      · intro c hlast
        simpa [isLineEnd] using hkept c hlast
      · intro c hmem
        simpa [isLineEnd] using hcut c hmem
    have hnumber : max (1 + segmentCount source.toList) 2 - 1 = max 1 (segmentCount source.toList) := by omega
    rw [search_past 1 [] hend, hsegment.getLastD_segments, htext, length_segments, hnumber]

theorem exists_locates_within {offset : Nat} (h : offset < source.utf8ByteSize) :
    ∃ line, Locates source offset line := by
  rw [← byteLength_toList] at h
  obtain ⟨before, c, rest, skip, hsource, hoffset, hskip⟩ := exists_char_of_lt h
  obtain ⟨above, lead, tail, below, rfl, hrest, hline⟩ := exists_isLine before (c :: rest)
  obtain ⟨feed, more, rfl, hfeed⟩ : ∃ feed more, below = feed ++ more ∧ (feed = ['\n'] ∨ feed = [] ∧ more = []) := by
    cases below with
    | nil => exact ⟨[], [], rfl, Or.inr ⟨rfl, rfl⟩⟩
    | cons d below =>
      obtain rfl : d = '\n' := beq_iff_eq.mp (hline.feed_below d rfl)
      exact ⟨['\n'], below, rfl, Or.inl rfl⟩
  have hbody : '\n' ∉ lead ++ tail := fun hmem => absurd (hline.no_feed _ hmem) (by decide)
  have habove : ∀ d ∈ above.getLast?, d = '\n' := fun d hlast => beq_iff_eq.mp (hline.feed_above d hlast)
  have hcolumn : byteLength lead + skip < byteLength (lead ++ tail ++ feed) := by
    obtain ⟨front, hfront⟩ : ∃ front, tail ++ feed = c :: front := by
      cases hsplit : tail ++ feed with
      | nil =>
        obtain ⟨rfl, rfl⟩ := List.append_eq_nil_iff.mp hsplit
        obtain ⟨-, rfl⟩ := hfeed.resolve_left (by simp)
        simp at hrest
      | cons d front =>
        rw [← List.append_assoc, hsplit] at hrest
        exact ⟨front, by rw [(List.cons.inj hrest).1]⟩
    rw [List.append_assoc, byteLength_append, hfront, byteLength_cons]
    omega
  rw [byteLength_append, Nat.add_assoc] at hoffset
  refine ⟨_, .within ?_ habove hbody hfeed hcolumn hoffset⟩
  rw [hsource, hline.text_eq, List.append_assoc (lead ++ tail)]

theorem exists_locates_pastEnd {offset : Nat} (h : source.utf8ByteSize ≤ offset) :
    ∃ line, Locates source offset line := by
  obtain ⟨segment, hlast⟩ := exists_isLastSegment source.toList
  obtain ⟨ends, hends, hcut⟩ := exists_dropTrailing isLineEnd segment
  refine ⟨_, .pastEnd h hlast hends ?_ ?_⟩
  · intro c hmem
    simpa [isLineEnd] using hcut c hmem
  · intro c hmem
    simpa [isLineEnd] using getLast?_dropTrailing isLineEnd segment c hmem

/-- **Lines are looked up exactly.** For every position of every source the one line is found that is to be shown. -/
theorem ofPosition_eq_iff_locates (source : String) (position : Position) (line : SourceLine) :
    ofPosition source position = line ↔ Locates source position.toNat line := by
  constructor
  · rintro rfl
    obtain ⟨line, hline⟩ : ∃ line, Locates source position.toNat line :=
      (Nat.lt_or_ge position.toNat source.utf8ByteSize).elim exists_locates_within exists_locates_pastEnd
    rw [hline.ofPosition_eq]
    exact hline
  · exact Locates.ofPosition_eq

example : ofPosition "é\n1+\r\n" (.ofOffset 1) = ⟨1, ['é', '\n'], 1⟩ := by decide

example : ofPosition "é\n1+\r\n" (.ofOffset 7) = ⟨2, ['1', '+'], 2⟩ := by decide

end SourceLine

end Abacus
