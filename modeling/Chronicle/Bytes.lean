/-!
# Bytes

A payload is a list of bytes.  A text stands for its UTF-8 bytes.  Not all bytes stand for a
text, but those of a text are read back as that text and no other.

* `text?_ofText` : a text is read back from its bytes;
* `text?_eq_some_iff` : only its bytes are read as the text.
-/

namespace Chronicle

/-- A payload. -/
abbrev Bytes := List UInt8

namespace Bytes

/-- The UTF-8 bytes of a text. -/
def ofText (s : String) : Bytes := s.toUTF8.data.toList

/-- The text that has these UTF-8 bytes, if there is one. -/
def text? (b : Bytes) : Option String := String.fromUTF8? ⟨b.toArray⟩

/-- Bytes are read as a text exactly when they are the bytes of the text. -/
theorem text?_eq_some_iff {b : Bytes} {s : String} : text? b = some s ↔ ofText s = b := by
  rw [text?, String.fromUTF8?, ofText, String.toUTF8_eq_toByteArray]
  constructor
  · intro h
    split at h
    · cases h
      rfl
    · cases h
  · rintro rfl
    rw [Array.toArray_toList, dif_pos s.isValidUTF8]
    rfl

/-- A text is read back from its bytes. -/
@[simp] theorem text?_ofText (s : String) : text? (ofText s) = some s := text?_eq_some_iff.2 rfl

end Bytes

end Chronicle
