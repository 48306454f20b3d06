import MonkeyLexis.Proofs.BlockInput

/-!
# Malformed bytes

The decoder reads bytes by ranges, but what it accepts and how it names a fault can be
told from the bytes of characters alone. A complete sequence is the bytes of one
character. Bytes that no character begins with have an invalid start; bytes that begin
a character and stop short of its end, end unexpectedly; all other malformed bytes
have an invalid continuation. A text is decoded from its own bytes and no others, and
all other bytes have exactly one first fault, the one that the decoder reports.
-/

namespace MonkeyLexis
namespace Utf8

/-- What each lead byte announces, by the number of bytes to follow. -/
theorem lead_cases {b : Nat} {lead : Lead} (h : lead? b = some lead) :
    (b < 0x80 ∧ lead = ⟨b, 0x80, 0xBF, 0⟩) ∨
    (0xC2 ≤ b ∧ b < 0xE0 ∧ lead = ⟨b - 0xC0, 0x80, 0xBF, 1⟩) ∨
    (0xE0 ≤ b ∧ b < 0xF0 ∧
      lead = ⟨b - 0xE0, if b = 0xE0 then 0xA0 else 0x80, if b = 0xED then 0x9F else 0xBF, 2⟩) ∨
    (0xF0 ≤ b ∧ b ≤ 0xF4 ∧
      lead = ⟨b - 0xF0, if b = 0xF0 then 0x90 else 0x80, if b = 0xF4 then 0x8F else 0xBF, 3⟩) := by
  grind [lead?]

theorem exists_of_continued {low high code span following code' : Nat} {bytes rest : Bytes}
    (hlow : 0x80 ≤ low)
    (h : continued low high code span (following + 1) bytes = .complete code' rest) :
    ∃ d bytes', low ≤ 0x80 + d ∧ 0x80 + d ≤ high ∧ bytes = .ofNat (0x80 + d) :: bytes' ∧
      continued 0x80 0xBF (code * 64 + d) (span + 1) following bytes' = .complete code' rest := by
  cases bytes with
  | nil => cases h
  | cons b bytes =>
    rw [continued] at h
    split at h
    · next hb =>
      have hd : 0x80 + (b.toNat - 0x80) = b.toNat := by omega
      refine ⟨b.toNat - 0x80, bytes, by omega, by omega, ?_, h⟩
      rw [hd, UInt8.ofNat_toNat]
    · cases h

theorem toNat_ofNat_of_valid {n : Nat} (h : n < 0xD800 ∨ 0xDFFF < n ∧ n < 0x110000) :
    (Char.ofNat n).toNat = n := by
  rw [Char.ofNat, dif_pos h]
  rfl

theorem encodeChar_one {s : Nat} (hs : s < 0x80) : encodeChar (.ofNat s) = [.ofNat s] := by
  simp only [encodeChar, toNat_ofNat_of_valid (Or.inl (by omega : s < 0xD800)), hs, if_true]

theorem encodeChar_two {s d : Nat} (hs : 2 ≤ s ∧ s < 0x20) (hd : d < 0x40) :
    encodeChar (.ofNat (s * 64 + d)) = [.ofNat (0xC0 + s), .ofNat (0x80 + d)] := by
  have hn := toNat_ofNat_of_valid (n := s * 64 + d) (by omega)
  have h1 : (s * 64 + d) / 64 = s := by omega
  have h2 : (s * 64 + d) % 64 = d := by omega
  simp only [encodeChar, hn]
  rw [if_neg (by omega), if_pos (by omega), h1, h2]

theorem encodeChar_three {s d e : Nat} (hs : s < 0x10) (hd : d < 0x40) (he : e < 0x40)
    (hlow : s = 0 → 0x20 ≤ d) (hsurrogate : s = 0xD → d < 0x20) :
    encodeChar (.ofNat ((s * 64 + d) * 64 + e)) =
      [.ofNat (0xE0 + s), .ofNat (0x80 + d), .ofNat (0x80 + e)] := by
  have hn := toNat_ofNat_of_valid (n := (s * 64 + d) * 64 + e) (by omega)
  have h1 : ((s * 64 + d) * 64 + e) / 4096 = s := by omega
  have h2 : ((s * 64 + d) * 64 + e) / 64 % 64 = d := by omega
  have h3 : ((s * 64 + d) * 64 + e) % 64 = e := by omega
  simp only [encodeChar, hn]
  rw [if_neg (by omega), if_neg (by omega), if_pos (by omega), h1, h2, h3]

theorem encodeChar_four {s d e f : Nat} (hs : s ≤ 4) (hd : d < 0x40) (he : e < 0x40)
    (hf : f < 0x40) (hlow : s = 0 → 0x10 ≤ d) (hhigh : s = 4 → d < 0x10) :
    encodeChar (.ofNat (((s * 64 + d) * 64 + e) * 64 + f)) =
      [.ofNat (0xF0 + s), .ofNat (0x80 + d), .ofNat (0x80 + e), .ofNat (0x80 + f)] := by
  have hn := toNat_ofNat_of_valid (n := ((s * 64 + d) * 64 + e) * 64 + f) (by omega)
  have h1 : (((s * 64 + d) * 64 + e) * 64 + f) / 262144 = s := by omega
  have h2 : (((s * 64 + d) * 64 + e) * 64 + f) / 4096 % 64 = d := by omega
  have h3 : (((s * 64 + d) * 64 + e) * 64 + f) / 64 % 64 = e := by omega
  have h4 : (((s * 64 + d) * 64 + e) * 64 + f) % 64 = f := by omega
  simp only [encodeChar, hn]
  rw [if_neg (by omega), if_neg (by omega), if_neg (by omega), h1, h2, h3, h4]

/-- A complete sequence is the bytes of a character. -/
theorem eq_encodeChar_append_of_complete {b : UInt8} {bytes rest : Bytes} {code : Nat}
    (h : sequence b bytes = .complete code rest) :
    b :: bytes = encodeChar (.ofNat code) ++ rest := by
  have hb : .ofNat b.toNat = b := b.ofNat_toNat
  rw [sequence] at h
  split at h
  · cases h
  next lead hlead =>
  -- one case for each number of bytes to follow
  rcases lead_cases hlead with ⟨hn, rfl⟩ | ⟨hfirst, hlast, rfl⟩ | ⟨hfirst, hlast, rfl⟩ |
    ⟨hfirst, hlast, rfl⟩ <;> dsimp only at h
  · rw [continued_zero] at h
    cases h
    rw [encodeChar_one hn, hb]
    rfl
  · have hs : 0xC0 + (b.toNat - 0xC0) = b.toNat := by omega
    obtain ⟨d, _, _, hd, rfl, hd'⟩ := exists_of_continued (by omega) h
    rw [continued_zero] at hd'
    cases hd'
    rw [encodeChar_two (by omega) (by omega), hs, hb]
    rfl
  · have hs : 0xE0 + (b.toNat - 0xE0) = b.toNat := by omega
    obtain ⟨d, _, hlow, hhigh, rfl, hd'⟩ := exists_of_continued (by split <;> omega) h
    obtain ⟨e, _, _, he, rfl, he'⟩ := exists_of_continued (by omega) hd'
    rw [continued_zero] at he'
    cases he'
    rw [encodeChar_three (by omega) (by grind) (by omega) (by grind) (by grind), hs, hb]
    rfl
  · have hs : 0xF0 + (b.toNat - 0xF0) = b.toNat := by omega
    obtain ⟨d, _, hlow, hhigh, rfl, hd'⟩ := exists_of_continued (by split <;> omega) h
    obtain ⟨e, _, _, he, rfl, he'⟩ := exists_of_continued (by omega) hd'
    obtain ⟨f, _, _, hf, rfl, hf'⟩ := exists_of_continued (by omega) he'
    rw [continued_zero] at hf'
    cases hf'
    rw [encodeChar_four (by omega) (by grind) (by omega) (by omega) (by grind) (by grind), hs, hb]
    rfl

theorem encodeChar_of_complete {b : UInt8} {bytes : Bytes} {code : Nat}
    (h : sequence b bytes = .complete code []) : encodeChar (.ofNat code) = b :: bytes := by
  rw [eq_encodeChar_append_of_complete h, List.append_nil]

theorem exists_completion {low high : Nat} (hlow : low ≤ high) (hhigh : high < 0x100)
    (code span following : Nat) :
    ∃ missing code', missing.length = following ∧
      continued low high code span following missing = .complete code' [] := by
  induction following generalizing low high code span with
  | zero => exact ⟨[], code, rfl, by rw [continued]⟩
  | succ following ih =>
    have hnat : (UInt8.ofNat low).toNat = low := toNat_ofNat_of_lt (by omega)
    have hnext : 0x80 ≤ 0xBF := by decide
    obtain ⟨missing, code', hlength, hcomplete⟩ :=
      ih hnext (by decide) (code * 64 + (low - 0x80)) (span + 1)
    refine ⟨.ofNat low :: missing, code', congrArg (· + 1) hlength, ?_⟩
    rw [continued, hnat, if_pos ⟨Nat.le_refl low, hlow⟩, hcomplete]

theorem exists_missing_of_unexpectedEnd {low high code span following n : Nat} {bytes : Bytes}
    (hlow : low ≤ high) (hhigh : high < 0x100)
    (h : continued low high code span following bytes = .malformed .unexpectedEnd n) :
    ∃ missing code', missing ≠ [] ∧
      continued low high code span following (bytes ++ missing) = .complete code' [] := by
  induction following generalizing low high code span bytes with
  | zero =>
    rw [continued_zero] at h
    cases h
  | succ following ih =>
    cases bytes with
    | nil =>
      obtain ⟨missing, code', hlength, hcomplete⟩ :=
        exists_completion hlow hhigh code span (following + 1)
      exact ⟨missing, code', List.ne_nil_of_length_eq_add_one hlength, hcomplete⟩
    | cons b bytes =>
      rw [continued] at h
      split at h
      · next hb =>
        obtain ⟨missing, code', hne, hcomplete⟩ := ih (by decide) (by decide) h
        refine ⟨missing, code', hne, ?_⟩
        rw [List.cons_append, continued, if_pos hb, hcomplete]
      · cases h

theorem lead_range {b : Nat} {lead : Lead} (h : lead? b = some lead) :
    lead.low ≤ lead.high ∧ lead.high < 0x100 := by
  rcases lead_cases h with ⟨_, rfl⟩ | ⟨_, _, rfl⟩ | ⟨_, _, rfl⟩ | ⟨_, _, rfl⟩ <;> grind

theorem unfinished_iff_exists_sequence {b : UInt8} {bytes : Bytes} :
    Unfinished (b :: bytes) ↔ ∃ span, sequence b bytes = .malformed .unexpectedEnd span := by
  refine ⟨Unfinished.exists_sequence, ?_⟩
  rintro ⟨span, h⟩
  rw [sequence] at h
  split at h
  · cases h
  next lead hlead =>
  obtain ⟨hlow, hhigh⟩ := lead_range hlead
  obtain ⟨missing, code, hne, hcomplete⟩ := exists_missing_of_unexpectedEnd hlow hhigh h
  have hsequence : sequence b (bytes ++ missing) = .complete code [] := by
    simp only [sequence, hlead, hcomplete]
  exact ⟨.ofNat code, missing, hne, encodeChar_of_complete hsequence⟩

def BeginsChar (b : UInt8) : Prop := ∃ c, (encodeChar c).head? = some b

theorem beginsChar_iff {b : UInt8} : BeginsChar b ↔ ∃ lead, lead? b.toNat = some lead := by
  constructor
  · rintro ⟨c, hc⟩
    obtain ⟨first, bytes, hfirst, hs⟩ := exists_encodeChar_append c []
    rw [List.append_nil] at hfirst
    rw [hfirst] at hc
    cases hc
    rw [sequence] at hs
    split at hs
    · cases hs
    · next lead hlead => exact ⟨lead, hlead⟩
  · rintro ⟨lead, hlead⟩
    obtain ⟨hlow, hhigh⟩ := lead_range hlead
    obtain ⟨bytes, code, _, hcomplete⟩ :=
      exists_completion hlow hhigh lead.share 1 lead.following
    have hsequence : sequence b bytes = .complete code [] := by
      simp only [sequence, hlead, hcomplete]
    exact ⟨.ofNat code, congrArg List.head? (encodeChar_of_complete hsequence)⟩

theorem continued_ne_invalidStart (low high code span following : Nat) (bytes : Bytes) (n : Nat) :
    continued low high code span following bytes ≠ .malformed .invalidStart n := by
  induction following generalizing low high code span bytes with
  | zero => simp [continued_zero]
  | succ following ih =>
    cases bytes with
    | nil => simp [continued]
    | cons b bytes =>
      rw [continued]
      split
      · exact ih _ _ _ _ _
      · simp

theorem not_beginsChar_iff {b : UInt8} {bytes : Bytes} :
    ¬ BeginsChar b ↔ ∃ span, sequence b bytes = .malformed .invalidStart span := by
  rw [beginsChar_iff, sequence]
  cases hlead : lead? b.toNat with
  | none => simp
  | some lead => simp [continued_ne_invalidStart]

/-- Why bytes are malformed, told from the bytes of characters. -/
inductive Fault : Bytes → Reason → Prop
  | invalidStart {b : UInt8} {bytes : Bytes} (hstart : ¬ BeginsChar b) :
    Fault (b :: bytes) .invalidStart
  | unexpectedEnd {b : UInt8} {bytes : Bytes} (hend : Unfinished (b :: bytes)) :
    Fault (b :: bytes) .unexpectedEnd
  | invalidContinuation {b : UInt8} {bytes : Bytes} (hstart : BeginsChar b)
    (hend : ¬ Unfinished (b :: bytes)) (hwhole : ∀ c, ¬ encodeChar c <+: b :: bytes) :
    Fault (b :: bytes) .invalidContinuation

/-- Behind some characters stand bytes that are malformed for this reason. -/
def FirstFault (bytes : Bytes) (reason : Reason) : Prop :=
  ∃ t rest, bytes = encode t ++ rest ∧ Fault rest reason

theorem not_prefix_iff_malformed {b : UInt8} {bytes : Bytes} :
    (∀ c, ¬ encodeChar c <+: b :: bytes) ↔
      ∃ reason span, sequence b bytes = .malformed reason span := by
  constructor
  · intro h
    cases hs : sequence b bytes with
    | complete code rest => exact absurd ⟨rest, (eq_encodeChar_append_of_complete hs).symm⟩ (h _)
    | malformed reason span => exact ⟨reason, span, rfl⟩
  · rintro ⟨reason, span, h⟩ c ⟨rest, hrest⟩
    obtain ⟨first, others, hfirst, hcomplete⟩ := exists_encodeChar_append c rest
    rw [hrest] at hfirst
    cases hfirst
    rw [h] at hcomplete
    cases hcomplete

theorem fault_iff {b : UInt8} {bytes : Bytes} {reason : Reason} :
    Fault (b :: bytes) reason ↔ ∃ span, sequence b bytes = .malformed reason span := by
  constructor
  · rintro (hstart | hend | ⟨hstart, hend, hwhole⟩)
    · exact not_beginsChar_iff.mp hstart
    · exact unfinished_iff_exists_sequence.mp hend
    · obtain ⟨reason, span, h⟩ := not_prefix_iff_malformed.mp hwhole
      cases reason with
      | invalidStart => exact absurd hstart (not_beginsChar_iff.mpr ⟨span, h⟩)
      | unexpectedEnd => exact absurd (unfinished_iff_exists_sequence.mpr ⟨span, h⟩) hend
      | invalidContinuation => exact ⟨span, h⟩
  · rintro ⟨span, h⟩
    cases reason with
    | invalidStart => exact .invalidStart (not_beginsChar_iff.mpr ⟨span, h⟩)
    | unexpectedEnd => exact .unexpectedEnd (unfinished_iff_exists_sequence.mpr ⟨span, h⟩)
    | invalidContinuation =>
      refine .invalidContinuation ?_ ?_ (not_prefix_iff_malformed.mpr ⟨_, span, h⟩)
      · by_contra hstart
        obtain ⟨_, h'⟩ := not_beginsChar_iff.mp hstart
        rw [h] at h'
        cases h'
      · intro hend
        obtain ⟨_, h'⟩ := hend.exists_sequence
        rw [h] at h'
        cases h'

theorem split_cases (bytes : Bytes) :
    ∃ t rest, split bytes = (t, rest) ∧ bytes = encode t ++ rest ∧
      (rest = [] ∨ ∃ reason, Fault rest reason) := by
  fun_induction split bytes with
  | case1 => exact ⟨[], [], rfl, rfl, .inl rfl⟩
  | case2 b bytes reason span h =>
    exact ⟨[], b :: bytes, rfl, rfl, .inr ⟨reason, fault_iff.mpr ⟨span, h⟩⟩⟩
  | case3 b bytes code rest h _ ih =>
    obtain ⟨t, rest', hsplit, hrest, hfault⟩ := ih
    refine ⟨.ofNat code :: t, rest', ?_, ?_, hfault⟩
    · rw [hsplit]
    · rw [eq_encodeChar_append_of_complete h, encode_cons, List.append_assoc, ← hrest]

theorem decode_of_fault {t : Text} {rest : Bytes} {reason : Reason} (h : Fault rest reason) :
    ∃ m, decode (encode t ++ rest) = .error m ∧ m.reason = reason := by
  cases rest with
  | nil => cases h
  | cons b bytes =>
    obtain ⟨span, hs⟩ := fault_iff.mp h
    simp [decode, split_encode_append, split_of_malformed hs, malformedAt?, hs]

/-- A text is decoded from its own bytes and no others. -/
theorem decode_eq_ok_iff {bytes : Bytes} {t : Text} : decode bytes = .ok t ↔ bytes = encode t := by
  constructor
  · intro h
    obtain ⟨s, rest, hsplit, rfl, rfl | ⟨reason, hfault⟩⟩ := split_cases bytes
    · rw [List.append_nil] at h ⊢
      rw [decode_encode] at h
      cases h
      rfl
    · obtain ⟨m, hm, _⟩ := decode_of_fault (t := s) hfault
      rw [h] at hm
      cases hm
  · rintro rfl
    exact decode_encode t

theorem firstFault_iff {bytes : Bytes} {reason : Reason} :
    FirstFault bytes reason ↔ ∃ m, decode bytes = .error m ∧ m.reason = reason := by
  constructor
  · rintro ⟨t, rest, rfl, h⟩
    exact decode_of_fault h
  · rintro ⟨m, hm, rfl⟩
    obtain ⟨t, rest, _, rfl, rfl | ⟨reason, hfault⟩⟩ := split_cases bytes
    · rw [List.append_nil, decode_encode] at hm
      cases hm
    · obtain ⟨m', hm', rfl⟩ := decode_of_fault (t := t) hfault
      rw [hm] at hm'
      cases hm'
      exact ⟨t, rest, rfl, hfault⟩

theorem FirstFault.ne_encode {bytes : Bytes} {reason : Reason} (h : FirstFault bytes reason)
    (t : Text) : bytes ≠ encode t := by
  rintro rfl
  obtain ⟨m, hm, _⟩ := firstFault_iff.mp h
  rw [decode_encode] at hm
  cases hm

theorem exists_firstFault {bytes : Bytes} (h : ∀ t, bytes ≠ encode t) :
    ∃ reason, ∀ other, FirstFault bytes other ↔ other = reason := by
  cases hdecode : decode bytes with
  | ok t => exact absurd (decode_eq_ok_iff.mp hdecode) (h t)
  | error m =>
    refine ⟨m.reason, fun other => ?_⟩
    simp [firstFault_iff, hdecode, eq_comm]

end Utf8
end MonkeyLexis
