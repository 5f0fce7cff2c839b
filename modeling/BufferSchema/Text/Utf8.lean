/-!
# Texts as bytes

Files and input are bytes; a text is what they hold if they are valid UTF-8.
-/

namespace BufferSchema.Text

/-- The text that bytes encode, if they are valid UTF-8. -/
def decode? (bytes : List UInt8) : Option String := String.fromUTF8? ⟨bytes.toArray⟩

/-- The bytes of a text. -/
def encode (s : String) : List UInt8 := s.toUTF8.toList

theorem toList_loop (bytes : ByteArray) (i : Nat) (done : List UInt8) :
    ByteArray.toList.loop bytes i done = done.reverse ++ bytes.data.toList.drop i := by
  induction i, done using ByteArray.toList.loop.induct bytes with
  | case1 i done h ih =>
    have hi : i < bytes.data.toList.length := by simpa using h
    have hbyte : bytes.data.toList[i] = bytes.get! i := by
      rw [Array.getElem_toList]
      exact (getElem!_pos bytes.data i hi).symm
    rw [ByteArray.toList.loop, if_pos h, ih, List.drop_eq_getElem_cons hi, hbyte, List.reverse_cons, List.append_assoc,
      List.singleton_append]
  | case2 i done h =>
    have hi : bytes.data.toList.length ≤ i := by simpa using h
    rw [ByteArray.toList.loop, if_neg h, List.drop_eq_nil_of_le hi, List.append_nil]

theorem decode?_encode (s : String) : decode? (encode s) = some s := by
  have hbytes : (encode s).toArray = s.toByteArray.data := by
    rw [encode, String.toUTF8_eq_toByteArray, ByteArray.toList, toList_loop]
    rfl
  rw [decode?, hbytes, String.fromUTF8?, dif_pos s.isValidUTF8]
  rfl

/-- What is said of bytes that are not valid UTF-8. -/
def invalidEncoding : String := "stream did not contain valid UTF-8"

end BufferSchema.Text
