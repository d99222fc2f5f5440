import PatternRename.Text.Utf8

/-!
# The octets of a text

The octets of a text are those of its characters, and a character below 128 is the only one that
has its octet. So a text has a slash among its octets exactly if it has one among its characters.

## Main definitions

- `octetCount` — how many octets characters have

## Main results

- `Utf8.octets_eq_flatMap` — the octets of a text, character by character
- `Utf8.slash_mem_octets_iff` — slashes among octets and among characters
- `Utf8.octets_of_decode?` — octets that encode a text are its octets
- `Utf8.decode?_octets` — the octets of a text encode it
-/

namespace PatternRename.Text

/-- How many octets characters have. -/
def octetCount (cs : List Char) : Nat :=
  (String.ofList cs).utf8ByteSize

@[simp]
theorem octetCount_cons (c : Char) (cs : List Char) :
    octetCount (c :: cs) = c.utf8Size + octetCount cs := by
  simp [octetCount]

@[simp]
theorem octetCount_append (front back : List Char) :
    octetCount (front ++ back) = octetCount front + octetCount back := by
  simp [octetCount]

namespace Utf8

theorem octets_eq_flatMap (s : String) : octets s = s.toList.flatMap String.utf8EncodeChar := by
  rw [octets, ← String.utf8Encode_toList, List.utf8Encode]
  simp

/-- Only a character below 128 has an octet below 128, and it is the character itself. -/
theorem val_eq_of_mem_utf8EncodeChar {c : Char} {b : UInt8} (h : b ∈ String.utf8EncodeChar c)
    (hb : b.toNat < 0x80) : c.val.toNat = b.toNat := by
  -- the octets of longer characters have their highest bit set
  have hhigh : ∀ n : Nat, 0x80 ≤ n % 256 → b ≠ UInt8.ofNat n := by
    rintro n hn rfl
    rw [UInt8.toNat_ofNat'] at hb
    omega
  unfold String.utf8EncodeChar at h
  dsimp only at h
  split at h
  · rename_i hle
    rw [List.mem_singleton.mp h, UInt8.toNat_ofNat']
    omega
  · split at h
    · simp only [List.mem_cons, List.not_mem_nil, or_false] at h
      rcases h with h | h <;> exact absurd h (hhigh _ (by omega))
    · split at h
      · simp only [List.mem_cons, List.not_mem_nil, or_false] at h
        rcases h with h | h | h <;> exact absurd h (hhigh _ (by omega))
      · simp only [List.mem_cons, List.not_mem_nil, or_false] at h
        rcases h with h | h | h | h <;> exact absurd h (hhigh _ (by omega))

/-- A text has a slash among its octets exactly if it has one among its characters. -/
theorem slash_mem_octets_iff {s : String} : (0x2F : UInt8) ∈ octets s ↔ '/' ∈ s.toList := by
  rw [octets_eq_flatMap, List.mem_flatMap]
  constructor
  · rintro ⟨c, hc, hmem⟩
    have hval : c.val.toNat = ('/' : Char).val.toNat :=
      val_eq_of_mem_utf8EncodeChar hmem (by decide)
    rwa [← Char.ext (UInt32.toNat_inj.mp hval)]
  · intro hslash
    exact ⟨'/', hslash, by decide⟩

theorem octets_of_decode? {bytes : List UInt8} {text : String} (h : decode? bytes = some text) :
    octets text = bytes := by
  rw [decode?, String.fromUTF8?] at h
  split at h
  · rw [← Option.some.inj h]
    rfl
  · simp at h

theorem decode?_octets (text : String) : decode? (octets text) = some text := by
  have hbytes : (⟨(octets text).toArray⟩ : ByteArray) = text.toByteArray := rfl
  rw [decode?, String.fromUTF8?, hbytes]
  split
  · rfl
  · rename_i hvalid
    exact absurd (String.isValidUTF8 text) (by simpa using hvalid)

end Utf8

end PatternRename.Text
