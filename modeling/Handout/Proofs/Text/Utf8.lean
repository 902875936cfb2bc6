/-
  Handout.Proofs.Text.Utf8 — the bytes of a text are read as that text.
-/

import Handout.Text.Utf8

namespace Handout.Text.Utf8

/-- Bytes that have been read already are passed over. -/
theorem decode_append (t r : List UInt8) : decode t.length (t ++ r) = decode 0 r := by
  induction t with
  | nil => rfl
  | cons b t ih => simpa [decode] using ih

theorem first?_utf8EncodeChar (c : Char) (r : List UInt8) : first? (String.utf8EncodeChar c ++ r) = some c := by
  have hlength : (String.utf8EncodeChar c).length ≤ 4 := by
    simpa only [String.length_utf8EncodeChar] using c.utf8Size_le_four
  rw [first?, List.take_append, List.take_of_length_le hlength, List.toByteArray_append,
    ByteArray.utf8DecodeChar?_utf8EncodeChar_append]

theorem decode_flatMap (cs : List Char) : decode 0 (cs.flatMap String.utf8EncodeChar) = cs := by
  induction cs with
  | nil => rfl
  | cons c cs ih =>
    obtain ⟨b, t, ht⟩ : ∃ b t, String.utf8EncodeChar c = b :: t :=
      List.exists_cons_of_length_pos (by rw [String.length_utf8EncodeChar]; exact c.utf8Size_pos)
    have hskip : c.utf8Size - 1 = t.length := by
      rw [← String.length_utf8EncodeChar, ht, List.length_cons, Nat.add_sub_cancel]
    have hfirst : first? (b :: (t ++ cs.flatMap String.utf8EncodeChar)) = some c := by
      rw [← List.cons_append, ← ht, first?_utf8EncodeChar]
    rw [List.flatMap_cons, ht, List.cons_append, decode, hfirst]
    simp only [hskip, decode_append, ih]

@[simp] theorem lossy_toByteArray (s : String) : lossy s.toByteArray = s := by
  rw [lossy, ← String.utf8Encode_toList, List.utf8Encode, List.data_toByteArray,
    decode_flatMap, String.ofList_toList]

end Handout.Text.Utf8
