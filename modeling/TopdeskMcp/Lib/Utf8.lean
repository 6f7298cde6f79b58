import Mathlib.Data.List.Basic

/-!
# Text as bytes

`Utf8.encode` lists the bytes of a text and `Utf8.decode` reads them back, with
the round trip between them. `decode` fails on anything that is not well-formed.
-/

/-- The contents of a file, a buffer or a message. -/
abbrev Bytes := List UInt8

namespace Utf8

/-- The bytes of a sequence of characters. -/
def encodeChars (chars : List Char) : Bytes := chars.flatMap String.utf8EncodeChar

def encode (text : String) : Bytes := encodeChars text.toList

def decode (bytes : Bytes) : Option String := String.fromUTF8? bytes.toByteArray

theorem toByteArray_encode (text : String) : (encode text).toByteArray = text.toByteArray := by
  show text.toList.utf8Encode = text.toByteArray
  exact String.utf8Encode_toList

/-- Text survives its encoding. -/
@[simp] theorem decode_encode (text : String) : decode (encode text) = some text := by
  rw [decode, toByteArray_encode]
  simp [String.fromUTF8?, text.isValidUTF8]
  rfl

/-- Only a text's own encoding decodes to it. -/
theorem encode_of_decode {bytes : Bytes} {text : String} (h : decode bytes = some text) :
    encode text = bytes := by
  unfold decode String.fromUTF8? at h
  split at h
  · have htext : text.toByteArray = bytes.toByteArray := by
      rw [← Option.some.inj h]
      rfl
    rw [← toByteArray_encode] at htext
    have hdata := congrArg (fun b => b.data.toList) htext
    simpa [List.data_toByteArray] using hdata
  · simp at h

/-- A text whose encoding starts another's is the start of it. -/
theorem prefix_of_encode {text full : String} {rest : Bytes}
    (h : encode text ++ rest = encode full) : text.toList <+: full.toList := by
  apply List.isPrefix_of_utf8Encode_append_eq_utf8Encode rest.toByteArray
  have hbytes := congrArg List.toByteArray h
  simpa [List.toByteArray_append, toByteArray_encode, String.utf8Encode_toList] using hbytes

theorem encodeChars_cons (c : Char) (chars : List Char) :
    encodeChars (c :: chars) = String.utf8EncodeChar c ++ encodeChars chars := rfl

end Utf8
