import TestTree.Text.Utf8.Lemmas

/-! # ASCII in UTF-8

An octet below 128 is a character of its own, never a part of another one: it is in the octets of a
text only if its character is in the text (`exists_of_mem_encode`). So a text can be searched and
cut at ASCII characters in its octets. -/

namespace TestTree.Text.Utf8

theorem encodeChar_of_lt {c : Char} (h : c.toNat < 0x80) : encodeChar c = [c.toNat.toUInt8] := by
  rw [encodeChar, if_pos h]

theorem eq_of_mem_encodeChar {c : Char} {b : UInt8} (h : b ∈ encodeChar c) (hb : b.toNat < 0x80) :
    c.toNat = b.toNat := by
  have hv : c.toNat < 0xD800 ∨ 0xDFFF < c.toNat ∧ c.toNat < 0x110000 := c.valid
  unfold encodeChar at h
  simp only at h
  split at h
  · simp only [List.mem_singleton] at h
    rw [h, toNat_toUInt8 (by omega)]
  -- All octets of the longer forms are 128 or more.
  split at h
  · simp only [List.mem_cons, List.not_mem_nil, or_false] at h
    rcases h with rfl | rfl <;> rw [toNat_toUInt8 (by omega)] at hb <;> omega
  split at h
  · simp only [List.mem_cons, List.not_mem_nil, or_false] at h
    rcases h with rfl | rfl | rfl <;> rw [toNat_toUInt8 (by omega)] at hb <;> omega
  · simp only [List.mem_cons, List.not_mem_nil, or_false] at h
    rcases h with rfl | rfl | rfl | rfl <;> rw [toNat_toUInt8 (by omega)] at hb <;> omega

theorem exists_of_mem_encode {text : List Char} {b : UInt8} (h : b ∈ encode text)
    (hb : b.toNat < 0x80) : ∃ c ∈ text, c.toNat = b.toNat := by
  obtain ⟨c, hc, hbc⟩ := List.mem_flatMap.mp h
  exact ⟨c, hc, eq_of_mem_encodeChar hbc hb⟩

/-- **An ASCII character** that is not in a text is not in its octets. -/
theorem notMem_encode {text : List Char} {b : UInt8} (hb : b.toNat < 0x80)
    (h : Char.ofNat b.toNat ∉ text) : b ∉ encode text := by
  intro hm
  obtain ⟨c, hc, hcb⟩ := exists_of_mem_encode hm hb
  exact h (by rw [← hcb, Char.ofNat_toNat]; exact hc)

end TestTree.Text.Utf8
