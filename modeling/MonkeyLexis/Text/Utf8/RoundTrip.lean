import MonkeyLexis.Text.Utf8

/-!
# Decoding what was encoded

The bytes of a character form one complete sequence, whatever follows them. So
reading gives back the characters that were written, in front of any other bytes,
and `decode` inverts `encode`.
-/

namespace MonkeyLexis
namespace Utf8

theorem toNat_ofNat_of_lt {n : Nat} (h : n < 0x100) : (UInt8.ofNat n).toNat = n :=
  UInt8.toNat_ofNat_of_lt' h

theorem continued_zero (low high code span : Nat) (bytes : Bytes) :
    continued low high code span 0 bytes = .complete code bytes := by
  rw [continued]

theorem continued_ofNat {low high code span following d : Nat} (hd : d < 0x40)
    (hlow : low ≤ 0x80 + d) (hhigh : 0x80 + d ≤ high) (bytes : Bytes) :
    continued low high code span (following + 1) (.ofNat (0x80 + d) :: bytes) =
      continued 0x80 0xBF (code * 64 + d) (span + 1) following bytes := by
  rw [continued, toNat_ofNat_of_lt (by omega), if_pos ⟨hlow, hhigh⟩, Nat.add_sub_cancel_left]

theorem sequence_ofNat {n : Nat} {lead : Lead} (hn : n < 0x100) (h : lead? n = some lead)
    (bytes : Bytes) :
    sequence (.ofNat n) bytes =
      continued lead.low lead.high lead.share 1 lead.following bytes := by
  simp only [sequence, toNat_ofNat_of_lt hn, h]

/-- The bytes of a character are its sequence, whatever follows them. -/
theorem exists_encodeChar_append (c : Char) (rest : Bytes) :
    ∃ b bytes, encodeChar c ++ rest = b :: bytes ∧ sequence b bytes = .complete c.toNat rest := by
  have hv : c.toNat < 0xD800 ∨ 0xDFFF < c.toNat ∧ c.toNat < 0x110000 := c.valid
  generalize hn : c.toNat = n at *
  simp only [encodeChar, hn]
  split
  · have hl : lead? n = some ⟨n, 0x80, 0xBF, 0⟩ := by grind [lead?]
    refine ⟨_, _, rfl, (sequence_ofNat (by omega) hl _).trans ?_⟩
    exact continued_zero ..
  · split
    · have hl : lead? (0xC0 + n / 64) = some ⟨n / 64, 0x80, 0xBF, 1⟩ := by grind [lead?]
      refine ⟨_, _, rfl, (sequence_ofNat (by omega) hl _).trans ?_⟩
      refine (continued_ofNat (by omega) (by grind) (by grind) rest).trans ?_
      rw [continued_zero]
      congr 1
      grind
    · split
      · have hl : lead? (0xE0 + n / 4096) =
            some ⟨n / 4096, if n / 4096 = 0 then 0xA0 else 0x80,
              if n / 4096 = 0xD then 0x9F else 0xBF, 2⟩ := by grind [lead?]
        refine ⟨_, _, rfl, (sequence_ofNat (by omega) hl _).trans ?_⟩
        refine (continued_ofNat (by omega) (by grind) (by grind) _).trans ?_
        refine (continued_ofNat (by omega) (by omega) (by omega) rest).trans ?_
        rw [continued_zero]
        congr 1
        grind
      · have hl : lead? (0xF0 + n / 262144) =
            some ⟨n / 262144, if n / 262144 = 0 then 0x90 else 0x80,
              if n / 262144 = 4 then 0x8F else 0xBF, 3⟩ := by grind [lead?]
        refine ⟨_, _, rfl, (sequence_ofNat (by omega) hl _).trans ?_⟩
        refine (continued_ofNat (by omega) (by grind) (by grind) _).trans ?_
        refine (continued_ofNat (by omega) (by omega) (by omega) _).trans ?_
        refine (continued_ofNat (by omega) (by omega) (by omega) rest).trans ?_
        rw [continued_zero]
        congr 1
        grind

theorem split_of_complete {b : UInt8} {bytes rest : Bytes} {code : Nat}
    (h : sequence b bytes = .complete code rest) :
    split (b :: bytes) = (.ofNat code :: (split rest).1, (split rest).2) := by
  rw [split]
  split
  · next hm => simp [h] at hm
  · next hc =>
    rw [h] at hc
    cases hc
    rfl

theorem split_encodeChar_append (c : Char) (rest : Bytes) :
    split (encodeChar c ++ rest) = (c :: (split rest).1, (split rest).2) := by
  obtain ⟨b, bytes, hb, hs⟩ := exists_encodeChar_append c rest
  rw [hb, split_of_complete hs, Char.ofNat_toNat]

theorem split_encode_append (t : Text) (rest : Bytes) :
    split (encode t ++ rest) = (t ++ (split rest).1, (split rest).2) := by
  induction t with
  | nil => simp [encode]
  | cons c t ih =>
    rw [encode, List.flatMap_cons, List.append_assoc, split_encodeChar_append]
    rw [encode] at ih
    rw [ih]
    rfl

theorem decode_encode (t : Text) : decode (encode t) = .ok t := by
  have h := split_encode_append t []
  rw [split, List.append_nil, List.append_nil] at h
  simp [decode, h, malformedAt?]

end Utf8
end MonkeyLexis
