/-!
# Text.Utf8 — the bytes of a text and the text of some bytes

Files hold bytes, names and targets are text.  `utf8Bytes` writes a text down, `ofUtf8?` reads it back and refuses
what is no text; each undoes the other (`ofUtf8?_utf8Bytes`, `utf8Bytes_of_ofUtf8?`).
-/
namespace IncludeClosure

/-- The content of a file. -/
abbrev Bytes := List UInt8

namespace Text

def utf8Bytes (text : String) : Bytes :=
  text.toByteArray.data.toList

/-- The text that `bytes` spell, unless they are not well-formed UTF-8. -/
def ofUtf8? (bytes : Bytes) : Option String :=
  String.fromUTF8? ⟨bytes.toArray⟩

/-- **Reading undoes writing.** -/
theorem ofUtf8?_utf8Bytes (text : String) : ofUtf8? (utf8Bytes text) = some text := by
  have valid : (⟨text.toByteArray.data.toList.toArray⟩ : ByteArray) = text.toByteArray := by simp
  simp only [ofUtf8?, utf8Bytes, valid, String.fromUTF8?]
  split
  · rfl
  · rename_i h; exact absurd text.isValidUTF8 (by simpa using h)

/-- **Only a text's own bytes read as that text.** -/
theorem utf8Bytes_of_ofUtf8? {bytes : Bytes} {text : String} (h : ofUtf8? bytes = some text) :
    utf8Bytes text = bytes := by
  simp only [ofUtf8?, String.fromUTF8?] at h
  split at h
  · cases h; rfl
  · cases h

end Text
end IncludeClosure
