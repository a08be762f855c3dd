/-!
# Segments

A list is cut after every item that ends a segment, such as a line feed. The end of the list ends a segment
too, but not an empty one.
-/

namespace Abacus.Text

/-- Cuts a list behind a `current` segment and the segments `done` before, both held backwards. -/
def segmentsFrom {α : Type} (isEnd : α → Bool) : List α → List α → List (List α) → List (List α)
  | [], [], done => done.reverse
  | [], item :: current, done => ((item :: current).reverse :: done).reverse
  | item :: items, current, done =>
    if isEnd item then segmentsFrom isEnd items [] ((item :: current).reverse :: done)
    else segmentsFrom isEnd items (item :: current) done

/-- The segments of a list, each with the item that ends it. -/
def segments {α : Type} (isEnd : α → Bool) (items : List α) : List (List α) :=
  segmentsFrom isEnd items [] []

end Abacus.Text
