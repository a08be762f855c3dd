/-!
# Text measured in bytes

Offsets into a text count the bytes of its UTF-8 form, while the text itself is handled as a list of
characters. `settle` walks a byte distance into a text and tells where the walk ends.
-/

namespace Abacus.Text

/-- Number of bytes in the UTF-8 form of a text. -/
def byteLength (text : List Char) : Nat :=
  text.foldl (fun total c => total + c.utf8Size) 0

theorem foldl_utf8Size (text : List Char) (start : Nat) :
    text.foldl (fun total c => total + c.utf8Size) start = start + byteLength text := by
  induction text generalizing start with
  | nil => rfl
  | cons c text ih =>
    simp only [byteLength, List.foldl_cons]
    rw [ih, ih (0 + c.utf8Size)]
    omega

@[simp]
theorem byteLength_nil : byteLength [] = 0 := rfl

@[simp]
theorem byteLength_cons (c : Char) (text : List Char) :
    byteLength (c :: text) = c.utf8Size + byteLength text := by
  rw [← foldl_utf8Size, byteLength, List.foldl_cons, Nat.zero_add]

@[simp]
theorem byteLength_append (left right : List Char) :
    byteLength (left ++ right) = byteLength left + byteLength right := by
  induction left with
  | nil => simp
  | cons c left ih => simp [ih, Nat.add_assoc]

/-- Walks `distance` bytes into a text, over whole characters only. Returns the bytes left to walk when the
next character no longer fits, or when the text ends, and the text not walked over. -/
def settle (distance : Nat) : List Char → Nat × List Char
  | [] => (distance, [])
  | c :: text =>
    if c.utf8Size ≤ distance then settle (distance - c.utf8Size) text else (distance, c :: text)

@[simp]
theorem settle_zero (text : List Char) : settle 0 text = (0, text) := by
  cases text with
  | nil => rfl
  | cons c text =>
    have := c.utf8Size_pos
    simp only [settle]
    rw [if_neg (by omega)]

theorem settle_add (near far : Nat) (text : List Char) :
    settle (near + far) text = settle ((settle near text).1 + far) (settle near text).2 := by
  induction text generalizing near with
  | nil => rfl
  | cons c text ih =>
    by_cases hfits : c.utf8Size ≤ near
    · have hsub : near + far - c.utf8Size = near - c.utf8Size + far := by omega
      rw [settle, if_pos (by omega), hsub, ih, settle, if_pos hfits]
    · simp only [settle.eq_2 near, if_neg hfits]

theorem settle_byteLength (left right : List Char) :
    settle (byteLength left) (left ++ right) = (0, right) := by
  induction left with
  | nil => simp
  | cons c left ih =>
    rw [byteLength_cons, List.cons_append, settle, if_pos (Nat.le_add_right _ _), Nat.add_sub_cancel_left, ih]

/-- A walk that has come to a boundary goes on over the text found there. -/
theorem settle_of_settle {distance : Nat} {text left right : List Char}
    (h : settle distance text = (0, left ++ right)) :
    settle (distance + byteLength left) text = (0, right) := by
  rw [settle_add, h, Nat.zero_add, settle_byteLength]

/-- Where a walk ends: behind whole characters, and less than the next character further. -/
theorem exists_settle (distance : Nat) (text : List Char) :
    ∃ before, text = before ++ (settle distance text).2 ∧ byteLength before + (settle distance text).1 = distance ∧
      ∀ c ∈ (settle distance text).2.head?, (settle distance text).1 < c.utf8Size := by
  induction text generalizing distance with
  | nil => exact ⟨[], rfl, Nat.zero_add distance, by simp [settle]⟩
  | cons c text ih =>
    by_cases hfits : c.utf8Size ≤ distance
    · obtain ⟨before, htext, hdistance, hnext⟩ := ih (distance - c.utf8Size)
      rw [settle, if_pos hfits]
      refine ⟨c :: before, congrArg (c :: ·) htext, ?_, hnext⟩
      rw [byteLength_cons]
      omega
    · rw [settle, if_neg hfits]
      exact ⟨[], rfl, Nat.zero_add distance, by simpa using hfits⟩

/-- The part of a text before its longest run of trailing characters of a class. -/
def dropTrailing (inClass : Char → Bool) (text : List Char) : List Char :=
  (text.reverse.dropWhile inClass).reverse

end Abacus.Text
