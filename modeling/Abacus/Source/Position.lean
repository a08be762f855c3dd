/-!
# Positions in a source

A position is a byte offset into the source held in 32 bits. Offsets beyond the last position all share it.
-/

namespace Abacus

structure Position where
  offset : UInt32
  deriving DecidableEq, Inhabited

namespace Position

def start : Position := ⟨0⟩

def last : Nat := UInt32.size - 1

/-- The position of a byte offset; offsets past the last position are moved back to it. -/
def ofOffset (offset : Nat) : Position :=
  ⟨UInt32.ofNat (min offset last)⟩

def toNat (position : Position) : Nat :=
  position.offset.toNat

theorem toNat_ofOffset (offset : Nat) : (ofOffset offset).toNat = min offset last := by
  have hlast : last < UInt32.size := by decide
  have hfits : min offset last < UInt32.size := Nat.lt_of_le_of_lt (Nat.min_le_right offset last) hlast
  simp [toNat, ofOffset, UInt32.toNat_ofNat_of_lt' hfits]

end Position

/-- The stretch of source from `start` up to, and without, `stop`. -/
structure Span where
  start : Position
  stop : Position
  deriving DecidableEq, Inhabited

namespace Span

def empty (position : Position) : Span := ⟨position, position⟩

/-- The span of `size` bytes from an offset on. -/
def ofOffset (offset size : Nat) : Span :=
  ⟨.ofOffset offset, .ofOffset (offset + size)⟩

end Span

end Abacus
