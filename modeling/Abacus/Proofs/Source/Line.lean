import Abacus.Proofs.Text.Lines
import Abacus.Source.Line

/-!
# The line of a position

The search for a line passes over the segments that end at or before the position. It stops at the segment that
reaches past it, and behind all of them at the end of the last one.
-/

namespace Abacus.SourceLine

open Text

theorem search_append {offset start : Nat} (number : Nat) (before : List Char) {front : List (List Char)}
    {line : List Char} (back : List (List Char)) (hstart : start + byteLength front.flatten ≤ offset)
    (hstop : offset < start + byteLength front.flatten + byteLength line) :
    search offset start number before (front ++ line :: back) =
      ⟨number + front.length, line, offset - (start + byteLength front.flatten)⟩ := by
  induction front generalizing start number before with
  | nil =>
    rw [List.flatten_nil, byteLength_nil, Nat.add_zero] at hstop
    rw [List.nil_append, search, if_pos hstop]
    rfl
  | cons first front ih =>
    rw [List.flatten_cons, byteLength_append, ← Nat.add_assoc] at hstart hstop ⊢
    have hpassed : ¬ offset < start + byteLength first := by omega
    rw [List.cons_append, search, if_neg hpassed, ih (number + 1) first hstart hstop, List.length_cons]
    congr 1
    omega

theorem search_past {offset start : Nat} (number : Nat) (before : List Char) {lines : List (List Char)}
    (h : start + byteLength lines.flatten ≤ offset) :
    search offset start number before lines =
      ⟨max (number + lines.length) 2 - 1, dropLineEnd (lines.getLastD before),
        byteLength (dropLineEnd (lines.getLastD before))⟩ := by
  induction lines generalizing start number before with
  | nil => rfl
  | cons line lines ih =>
    rw [List.flatten_cons, byteLength_append, ← Nat.add_assoc] at h
    have hpassed : ¬ offset < start + byteLength line := by omega
    rw [search, if_neg hpassed, ih (number + 1) line h, List.getLastD_cons, List.length_cons]
    congr 2
    omega

theorem ofPosition_eq (source : String) (position : Position) :
    ofPosition source position = search position.toNat 0 1 [] (segments isFeed source.toList) := rfl

/-- A position where something stands is shown in its line, which may end with a line feed. -/
theorem exists_ofPosition_of_isLine {source : String} {position : Position} {above lead tail below : List Char}
    (hline : IsLine source.toList above lead tail below) (htail : tail ≠ [])
    (hposition : position.toNat = byteLength (above ++ lead)) :
    ∃ feed, (ofPosition source position).text = lead ++ tail ++ feed ∧
      (ofPosition source position).column = byteLength lead ∧ ∀ c ∈ feed, isFeed c = true := by
  obtain ⟨feed, more, hsegments, hfeed⟩ := exists_segments_of_isLine hline htail
  have habove : byteLength (segments isFeed above).flatten = byteLength above := by rw [flatten_segments]
  rw [byteLength_append] at hposition
  have hpos : 0 < byteLength tail := by
    obtain ⟨c, tail, rfl⟩ := List.exists_cons_of_ne_nil htail
    have := c.utf8Size_pos
    rw [byteLength_cons]
    omega
  have hstart : 0 + byteLength (segments isFeed above).flatten ≤ position.toNat := by omega
  have hstop : position.toNat <
      0 + byteLength (segments isFeed above).flatten + byteLength (lead ++ tail ++ feed) := by
    rw [byteLength_append, byteLength_append]
    omega
  rw [ofPosition_eq, hsegments, search_append 1 [] more hstart hstop]
  refine ⟨feed, rfl, ?_, hfeed⟩
  dsimp only
  omega

/-- The end of a source is shown behind its last segment, line ends apart. -/
theorem exists_ofPosition_of_end {source : String} {position : Position}
    (hposition : byteLength source.toList ≤ position.toNat) :
    ∃ segment, IsLastSegment source.toList segment ∧
      (ofPosition source position).text = dropLineEnd segment ∧
      (ofPosition source position).column = byteLength (dropLineEnd segment) := by
  obtain ⟨segment, hlast⟩ := exists_isLastSegment source.toList
  have hend : 0 + byteLength (segments isFeed source.toList).flatten ≤ position.toNat := by
    rw [flatten_segments]
    omega
  rw [ofPosition_eq, search_past 1 [] hend, hlast.getLastD_segments]
  exact ⟨segment, hlast, rfl, rfl⟩

end Abacus.SourceLine
