/-!
# Text as bytes

Bytes are text when they are the UTF-8 encoding of a string, which they determine
(`fromUTF8?_eq_some_iff`). A byte below 128 stands for the character of the same number, so the line
feeds of a text are those of its bytes (`lineFeed_mem_toUTF8_iff`).
-/

namespace Seidel

theorem fromUTF8?_toUTF8 (s : String) : String.fromUTF8? s.toUTF8 = some s := by
  unfold String.fromUTF8?
  rw [String.toUTF8_eq_toByteArray, dif_pos s.isValidUTF8]
  rfl

theorem fromUTF8?_eq_some_iff {bytes : ByteArray} {s : String} :
    String.fromUTF8? bytes = some s ↔ s.toUTF8 = bytes := by
  constructor
  · intro read
    unfold String.fromUTF8? at read
    split at read
    · cases read
      rfl
    · cases read
  · rintro rfl
    exact fromUTF8?_toUTF8 s

theorem toList_toUTF8 (s : String) :
    s.toUTF8.data.toList = s.toList.flatMap String.utf8EncodeChar := by
  rw [String.toUTF8_eq_toByteArray, ← String.utf8Encode_toList, List.utf8Encode,
    List.toList_data_toByteArray]

theorem toNat_of_mem_utf8EncodeChar {c : Char} {b : UInt8} (mem : b ∈ String.utf8EncodeChar c) :
    0x80 ≤ b.toNat ∨ b.toNat = c.toNat := by
  have number : c.val.toNat = c.toNat := rfl
  unfold String.utf8EncodeChar at mem
  dsimp only at mem
  split at mem
  · obtain rfl := List.mem_singleton.mp mem
    rw [UInt8.toNat_ofNat']
    omega
  left
  split at mem
  · simp only [List.mem_cons, List.not_mem_nil, or_false] at mem
    rcases mem with rfl | rfl <;>
      · rw [UInt8.toNat_ofNat']
        omega
  split at mem
  · simp only [List.mem_cons, List.not_mem_nil, or_false] at mem
    rcases mem with rfl | rfl | rfl <;>
      · rw [UInt8.toNat_ofNat']
        omega
  · simp only [List.mem_cons, List.not_mem_nil, or_false] at mem
    rcases mem with rfl | rfl | rfl | rfl <;>
      · rw [UInt8.toNat_ofNat']
        omega

theorem lineFeed_mem_toUTF8_iff {s : String} :
    (10 : UInt8) ∈ s.toUTF8.data.toList ↔ '\n' ∈ s.toList := by
  rw [toList_toUTF8, List.mem_flatMap]
  constructor
  · rintro ⟨c, mem, encoded⟩
    rcases toNat_of_mem_utf8EncodeChar encoded with high | eq
    · exact absurd high (by decide)
    · rwa [Char.toNat_inj.mp (show '\n'.toNat = c.toNat from eq)]
  · intro mem
    exact ⟨'\n', mem, by decide⟩

end Seidel
