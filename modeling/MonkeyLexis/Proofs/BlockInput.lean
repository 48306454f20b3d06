import MonkeyLexis.Input
import MonkeyLexis.Proofs.Lines
import MonkeyLexis.Text.Utf8.RoundTrip

/-!
# Well-formed bytes read in blocks

However the bytes of a text are cut, the part before the cut decodes to some of its
characters, and what is kept for the next block is the beginning of one more. With
a carriage return that is kept in the same way, the blocks read so far and what is
kept are always the text so far. So the bytes of a text, read in blocks, become that
text with its line ends unified, and nothing stops the reader.
-/

namespace MonkeyLexis

namespace Utf8

/-- A sequence with a wrong byte stays wrong, so one that can be completed only lacks bytes. -/
theorem exists_continued_eq_unexpectedEnd {low high code span following code' : Nat}
    {x y : Bytes} (hy : y ≠ [])
    (h : continued low high code span following (x ++ y) = .complete code' []) :
    ∃ n, continued low high code span following x = .malformed .unexpectedEnd n := by
  induction following generalizing low high code span x with
  | zero =>
    rw [continued] at h
    have hxy : x ++ y = [] := (Sequence.complete.inj h).2
    exact absurd (List.append_eq_nil_iff.mp hxy).2 hy
  | succ following ih =>
    cases x with
    | nil => exact ⟨span, by rw [continued]⟩
    | cons b x =>
      rw [List.cons_append, continued] at h
      rw [continued]
      split at h
      · next hb =>
        rw [if_pos hb]
        exact ih h
      · cases h

/-- The bytes begin a character that they do not finish. -/
def Unfinished (kept : Bytes) : Prop := ∃ c missing, missing ≠ [] ∧ encodeChar c = kept ++ missing

theorem encodeChar_ne_nil (c : Char) : encodeChar c ≠ [] := by
  obtain ⟨b, bytes, hb, _⟩ := exists_encodeChar_append c []
  rw [List.append_nil] at hb
  rw [hb]
  exact List.cons_ne_nil b bytes

theorem unfinished_nil : Unfinished [] := ⟨'a', _, encodeChar_ne_nil 'a', rfl⟩

theorem Unfinished.exists_sequence {b : UInt8} {bytes : Bytes} (h : Unfinished (b :: bytes)) :
    ∃ span, sequence b bytes = .malformed .unexpectedEnd span := by
  obtain ⟨c, missing, hne, hc⟩ := h
  obtain ⟨first, others, hfirst, hcomplete⟩ := exists_encodeChar_append c []
  rw [List.append_nil, hc, List.cons_append] at hfirst
  cases hfirst
  rw [sequence] at hcomplete ⊢
  split at hcomplete
  · cases hcomplete
  · exact exists_continued_eq_unexpectedEnd hne hcomplete

theorem split_of_malformed {b : UInt8} {bytes : Bytes} {reason : Reason} {span : Nat}
    (h : sequence b bytes = .malformed reason span) : split (b :: bytes) = ([], b :: bytes) := by
  rw [split]
  split
  · rfl
  · next hc => simp [h] at hc

theorem Unfinished.split_eq {kept : Bytes} (h : Unfinished kept) : split kept = ([], kept) := by
  cases kept with
  | nil => rw [split]
  | cons b bytes =>
    obtain ⟨span, hs⟩ := h.exists_sequence
    exact split_of_malformed hs

theorem Unfinished.awaitsMore {kept : Bytes} (h : Unfinished kept) : awaitsMore kept = true := by
  cases kept with
  | nil => rfl
  | cons b bytes =>
    obtain ⟨span, hs⟩ := h.exists_sequence
    simp only [Utf8.awaitsMore, hs]

theorem encode_cons (c : Char) (t : Text) : encode (c :: t) = encodeChar c ++ encode t := rfl

/-- A cut through the bytes of a text leaves whole characters before it, up to a character that the
cut goes through. -/
theorem exists_cut_encode {x y : Bytes} {t : Text} (h : x ++ y = encode t) :
    ∃ s r kept, t = s ++ r ∧ x = encode s ++ kept ∧ kept ++ y = encode r ∧ Unfinished kept := by
  induction t generalizing x with
  | nil =>
    obtain ⟨rfl, rfl⟩ := List.append_eq_nil_iff.mp h
    exact ⟨[], [], [], rfl, rfl, rfl, unfinished_nil⟩
  | cons c t ih =>
    rw [encode_cons] at h
    rcases List.append_eq_append_iff.mp h with ⟨missing, hc, hy⟩ | ⟨x', hx, ht⟩
    · by_cases hne : missing = []
      · -- the cut is right behind the first character
        rw [hne, List.append_nil] at hc
        rw [hne, List.nil_append] at hy
        refine ⟨[c], t, [], rfl, ?_, hy, unfinished_nil⟩
        rw [← hc, encode_cons, encode, List.flatMap_nil, List.append_nil, List.append_nil]
      · exact ⟨[], c :: t, x, rfl, rfl, h, c, missing, hne, hc⟩
    · obtain ⟨s, r, kept, rfl, rfl, hr, hkept⟩ := ih ht.symm
      refine ⟨c :: s, r, kept, rfl, ?_, hr, hkept⟩
      rw [hx, encode_cons, List.append_assoc]

theorem decodeAvailable_encode_append {kept : Bytes} (h : Unfinished kept) (t : Text) :
    decodeAvailable (encode t ++ kept) = .ok (t, kept) := by
  rw [decodeAvailable, split_encode_append, h.split_eq, List.append_nil]
  exact if_pos h.awaitsMore

theorem Unfinished.eq_nil_of_eq_encode {kept : Bytes} {t : Text} (h : Unfinished kept)
    (ht : kept = encode t) : t = [] ∧ kept = [] := by
  have hsplit := split_encode_append t []
  rw [List.append_nil, ← ht, h.split_eq, split, List.append_nil] at hsplit
  exact ⟨(congrArg Prod.fst hsplit).symm, congrArg Prod.snd hsplit⟩

end Utf8

namespace Input

open Text

theorem flatten_blocks (size : Nat) (bytes : Bytes) : (blocks size bytes).flatten = bytes := by
  fun_induction blocks size bytes with
  | case1 => rfl
  | case2 b bytes ih => rw [List.flatten_cons, ih, List.take_append_drop]

def keptReturn (returnKept : Bool) : Text := if returnKept then ['\r'] else []

theorem keptReturn_append (returnKept : Bool) (t : Text) :
    (if returnKept then '\r' :: t else t) = keptReturn returnKept ++ t := by
  cases returnKept <;> rfl

theorem withhold_append (t : Text) : (withhold t).1 ++ keptReturn (withhold t).2 = t := by
  unfold withhold
  split
  · next h =>
    obtain ⟨s, rfl⟩ := List.getLast?_eq_some_iff.mp h
    rw [List.dropLast_concat]
    rfl
  · exact List.append_nil t

/-- Unifying line ends does not depend on the cut between what is delivered and what follows. -/
theorem unifyLineEnds_withhold (t rest : Text) :
    unifyLineEnds (withhold t).1 ++ unifyLineEnds (keptReturn (withhold t).2 ++ rest) =
      unifyLineEnds (t ++ rest) := by
  rw [← unifyLineEnds_append, ← List.append_assoc, withhold_append]
  unfold withhold
  split
  · intro _
    simp [keptReturn]
  · next h => exact fun hlast => absurd hlast h

/-- What is kept and the blocks to come are the bytes of a text; with the carriage return that is
kept, they become that text with unified line ends. -/
theorem ofBlocks_eq {kept : Bytes} (hkept : Utf8.Unfinished kept) (returnKept : Bool)
    (later : List Bytes) {t : Text} (ht : kept ++ later.flatten = Utf8.encode t) :
    ofBlocks kept returnKept later = ofText (unifyLineEnds (keptReturn returnKept ++ t)) := by
  induction later generalizing kept returnKept t with
  | nil =>
    rw [List.flatten_nil, List.append_nil] at ht
    obtain ⟨rfl, rfl⟩ := hkept.eq_nil_of_eq_encode ht
    cases returnKept <;> rfl
  | cons block later ih =>
    rw [List.flatten_cons, ← List.append_assoc] at ht
    obtain ⟨s, r, kept', rfl, hs, hr, hkept'⟩ := Utf8.exists_cut_encode ht
    simp only [ofBlocks, hs, Utf8.decodeAvailable_encode_append hkept', keptReturn_append,
      ih hkept' _ hr, ofText]
    rw [unifyLineEnds_withhold, List.append_assoc]

/-- The bytes of a text are read as the text with its line ends unified, in whatever portions they
are delivered. -/
theorem ofBlocks_of_flatten_eq_encode {portions : List Bytes} {t : Text}
    (h : portions.flatten = Utf8.encode t) :
    ofBlocks [] false portions = ofText (unifyLineEnds t) :=
  ofBlocks_eq Utf8.unfinished_nil false portions h

theorem ofBytes_encode (t : Text) : ofBytes (Utf8.encode t) = ofText (unifyLineEnds t) :=
  ofBlocks_of_flatten_eq_encode (flatten_blocks 8191 _)

end Input
end MonkeyLexis
