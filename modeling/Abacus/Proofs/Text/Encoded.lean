import Mathlib.Data.String.Basic

/-!
# Texts as bytes

The bytes of a text can be read back as that text. The byte of a line feed stands for nothing but a line feed: the
bytes of any longer character form are all above it.
-/

namespace Abacus.Text

theorem ten_ne_ofNat {value : Nat} (hlow : 128 ≤ value) (hhigh : value < 256) :
    (10 : UInt8) ≠ UInt8.ofNat value := by
  intro heq
  have htoNat := congrArg UInt8.toNat heq
  rw [UInt8.toNat_ofNat_of_lt' hhigh] at htoNat
  have hten : (10 : UInt8).toNat = 10 := rfl
  omega

theorem eq_feed_of_mem_utf8EncodeChar {c : Char} (h : (10 : UInt8) ∈ String.utf8EncodeChar c) : c = '\n' := by
  simp only [String.utf8EncodeChar] at h
  split at h
  · rename_i hsmall
    have htoNat := congrArg UInt8.toNat (List.mem_singleton.mp h)
    rw [UInt8.toNat_ofNat_of_lt' (by show c.val.toNat < 256; omega)] at htoNat
    have hval : c.val.toNat = '\n'.val.toNat := htoNat.symm
    exact Char.ext (UInt32.toNat_inj.mp hval)
  · exfalso
    split at h
    · simp only [List.mem_cons, List.not_mem_nil, or_false] at h
      rcases h with h | h <;> exact ten_ne_ofNat (by omega) (by omega) h
    · split at h
      · simp only [List.mem_cons, List.not_mem_nil, or_false] at h
        rcases h with h | h | h <;> exact ten_ne_ofNat (by omega) (by omega) h
      · simp only [List.mem_cons, List.not_mem_nil, or_false] at h
        rcases h with h | h | h | h <;> exact ten_ne_ofNat (by omega) (by omega) h

/-- The bytes of a text. -/
def bytes (text : String) : List UInt8 :=
  text.toUTF8.data.toList

theorem bytes_eq_flatMap (text : String) : bytes text = text.toList.flatMap String.utf8EncodeChar := by
  have htext : text.toUTF8 = text.toList.utf8Encode := by
    rw [String.toUTF8_eq_toByteArray, ← String.toByteArray_ofList, String.ofList_toList]
  rw [bytes, htext, List.utf8Encode, List.toList_data_toByteArray]

theorem bytes_append (first second : String) : bytes (first ++ second) = bytes first ++ bytes second := by
  rw [bytes_eq_flatMap, bytes_eq_flatMap, bytes_eq_flatMap, String.toList_append, List.flatMap_append]

theorem feed_notMem_bytes {text : String} (h : '\n' ∉ text.toList) : (10 : UInt8) ∉ bytes text := by
  rw [bytes_eq_flatMap]
  intro hmem
  obtain ⟨c, hc, hbyte⟩ := List.mem_flatMap.mp hmem
  rw [eq_feed_of_mem_utf8EncodeChar hbyte] at hc
  exact h hc

theorem fromUTF8?_bytes (text : String) : String.fromUTF8? (bytes text).toByteArray = some text := by
  have hbytes : (bytes text).toByteArray = text.toByteArray := by
    apply ByteArray.ext
    rw [List.data_toByteArray, bytes, String.toUTF8_eq_toByteArray, Array.toArray_toList]
  rw [hbytes, String.fromUTF8?, dif_pos text.isValidUTF8]
  rfl

theorem bytes_injective {first second : String} (h : bytes first = bytes second) : first = second := by
  have hread := fromUTF8?_bytes first
  rw [h, fromUTF8?_bytes] at hread
  exact (Option.some.inj hread).symm

theorem bytes_empty : bytes "" = [] := rfl

theorem bytes_feed : bytes "\n" = [10] := by decide

theorem bytes_ne_nil {text : String} (h : text ≠ "") : bytes text ≠ [] := by
  intro hnil
  exact h (bytes_injective (hnil.trans bytes_empty.symm))

end Abacus.Text
