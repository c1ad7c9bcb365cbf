import Mathlib

set_option autoImplicit false

/-! # Strings as UTF-8 byte lists

A `String` is a byte array together with a proof that it is valid UTF-8. Wire formats, hashes and
byte-level scanners see only the bytes, so this file exposes them as a `List UInt8` and relates the
byte list to the list of characters: `utf8Bytes` encodes character by character, it is injective,
and `ofUtf8Bytes?` is its exact left inverse. -/

namespace Utf8

/-! ## Encoding -/

/-- The UTF-8 encoding of a list of characters. -/
def encode (cs : List Char) : List UInt8 := cs.flatMap String.utf8EncodeChar

/-- The bytes of a string. -/
def utf8Bytes (s : String) : List UInt8 := s.toByteArray.data.toList

/-- The string with the given bytes, when they are valid UTF-8. -/
def ofUtf8Bytes? (bs : List UInt8) : Option String := String.fromUTF8? ⟨bs.toArray⟩

@[simp] theorem encode_nil : encode [] = [] := rfl

@[simp] theorem encode_cons (c : Char) (cs : List Char) :
    encode (c :: cs) = String.utf8EncodeChar c ++ encode cs := rfl

@[simp] theorem encode_append (as bs : List Char) : encode (as ++ bs) = encode as ++ encode bs :=
  List.flatMap_append ..

theorem utf8Bytes_eq_encode (s : String) : utf8Bytes s = encode s.toList := by
  conv_lhs => rw [← String.ofList_toList (s := s)]
  rw [utf8Bytes, String.toByteArray_ofList, List.utf8Encode, encode, List.data_toByteArray]

theorem utf8Bytes_ofList (cs : List Char) : utf8Bytes (String.ofList cs) = encode cs := by
  rw [utf8Bytes_eq_encode, String.toList_ofList]

@[simp] theorem utf8Bytes_empty : utf8Bytes "" = [] := rfl

@[simp] theorem utf8Bytes_append (s t : String) : utf8Bytes (s ++ t) = utf8Bytes s ++ utf8Bytes t := by
  simp [utf8Bytes_eq_encode]

theorem utf8Bytes_injective : Function.Injective utf8Bytes := by
  intro s t h
  have hdata : s.toByteArray.data = t.toByteArray.data := Array.toList_inj.mp h
  exact String.toByteArray_inj.mp (ByteArray.ext hdata)

theorem encode_injective : Function.Injective encode := by
  intro as bs heq
  rw [← utf8Bytes_ofList, ← utf8Bytes_ofList] at heq
  exact String.ofList_injective (utf8Bytes_injective heq)

@[simp] theorem utf8Bytes_inj {s t : String} : utf8Bytes s = utf8Bytes t ↔ s = t :=
  utf8Bytes_injective.eq_iff

@[simp] theorem utf8Bytes_eq_nil {s : String} : utf8Bytes s = [] ↔ s = "" := by
  rw [← utf8Bytes_empty, utf8Bytes_inj]

/-- Decoding the bytes of a string gives the string back. -/
@[simp] theorem ofUtf8Bytes?_utf8Bytes (s : String) : ofUtf8Bytes? (utf8Bytes s) = some s := by
  have hbytes : (⟨(utf8Bytes s).toArray⟩ : ByteArray) = s.toByteArray := by
    simp [utf8Bytes]
  rw [ofUtf8Bytes?, hbytes, String.fromUTF8?, dif_pos s.isValidUTF8]
  rfl

/-- What decodes is the encoding of what it decodes to. -/
theorem eq_of_ofUtf8Bytes? {bs : List UInt8} {s : String} (h : ofUtf8Bytes? bs = some s) :
    bs = utf8Bytes s := by
  unfold ofUtf8Bytes? String.fromUTF8? at h
  split at h
  · rw [← Option.some.inj h]
    rfl
  · cases h

theorem ofUtf8Bytes?_encode (cs : List Char) : ofUtf8Bytes? (encode cs) = some (String.ofList cs) := by
  rw [← utf8Bytes_ofList, ofUtf8Bytes?_utf8Bytes]

end Utf8
