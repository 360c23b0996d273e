import Superstep.Text.Utf8

/-!
# Superstep — UTF-8 there and back

The UTF-8 form of a string is that of its characters in turn, and each of them is found again at the
front of every byte string that begins with it (**`Utf8.front?_append`**). So the lossy reader has
nothing to replace in well-formed bytes (**`Utf8.lossy_encode`**), and reading with replacement a
second time changes no more.
-/

namespace Superstep.Utf8

/-- A string is encoded character by character. -/
theorem encode_ofList (cs : List Char) :
    encode (String.ofList cs) = cs.flatMap String.utf8EncodeChar := by
  rw [encode, String.toUTF8_eq_toByteArray, String.toByteArray_ofList]
  exact List.toList_data_toByteArray

/-- **A character is found at the front.** -/
theorem front?_append (c : Char) (rest : Bytes) :
    front? (String.utf8EncodeChar c ++ rest) = some c := by
  have hsize : (String.utf8EncodeChar c).length ≤ 4 := by
    rw [String.length_utf8EncodeChar]
    exact c.utf8Size_le_four
  have hbytes : (⟨((String.utf8EncodeChar c ++ rest).take 4).toArray⟩ : ByteArray)
      = (String.utf8EncodeChar c).toByteArray
        ++ (rest.take (4 - (String.utf8EncodeChar c).length)).toByteArray := by
    rw [← List.toByteArray_append, List.take_append, List.take_of_length_le hsize]
    exact ByteArray.ext List.data_toByteArray.symm
  rw [front?, hbytes]
  exact ByteArray.utf8DecodeChar?_utf8EncodeChar_append

/-- A character at the front is kept. -/
theorem lossyChars_cons (c : Char) (rest : Bytes) :
    lossyChars (String.utf8EncodeChar c ++ rest) = c :: lossyChars rest := by
  have hne : String.utf8EncodeChar c ++ rest ≠ [] := by simp
  have hdrop : (String.utf8EncodeChar c ++ rest).drop c.utf8Size = rest :=
    List.drop_left' (String.length_utf8EncodeChar c)
  rw [lossyChars, dif_neg hne, front?_append]
  dsimp only
  rw [hdrop]

/-- So all characters are kept. -/
theorem lossyChars_flatMap (cs : List Char) :
    lossyChars (cs.flatMap String.utf8EncodeChar) = cs := by
  induction cs with
  | nil => simp [lossyChars]
  | cons c cs ih => rw [List.flatMap_cons, lossyChars_cons, ih]

/-- **Nothing is replaced in the UTF-8 form of a string.** -/
theorem lossy_encode (s : String) : lossy (encode s) = s := by
  have h := encode_ofList s.toList
  rw [String.ofList_toList] at h
  rw [lossy, h, lossyChars_flatMap, String.ofList_toList]

/-- Bytes are well-formed if they are the UTF-8 form of a string. -/
theorem decode?_eq_some_iff {bytes : Bytes} {s : String} :
    decode? bytes = some s ↔ bytes = encode s := by
  unfold decode? encode String.fromUTF8?
  constructor
  · intro h
    split at h
    · cases h
      rfl
    · cases h
  · rintro rfl
    have hvalid : (ByteArray.mk s.toUTF8.data.toList.toArray).IsValidUTF8 := s.isValidUTF8
    rw [dif_pos hvalid]
    rfl

/-- **Well-formed bytes are read in the same way** with and without replacement. -/
theorem encode_lossy_of_decode? {bytes : Bytes} (h : (decode? bytes).isSome = true) :
    encode (lossy bytes) = bytes := by
  obtain ⟨s, hs⟩ := Option.isSome_iff_exists.1 h
  obtain rfl := decode?_eq_some_iff.1 hs
  rw [lossy_encode]

end Superstep.Utf8
