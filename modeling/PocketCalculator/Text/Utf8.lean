import PocketCalculator.Text.Basic

/-!
# Bytes and texts

Files and standard input hold bytes. They are read as UTF-8; a sequence of bytes that encodes no
text is refused as a whole.
-/

namespace PocketCalculator

abbrev Bytes := List UInt8

/-- The text that a sequence of bytes encodes, if it is well-formed UTF-8. -/
def decodeUtf8? (bytes : Bytes) : Option Text :=
  (String.fromUTF8? ⟨bytes.toArray⟩).map String.toList

def encodeUtf8 (text : Text) : Bytes :=
  (String.ofList text).toByteArray.data.toList

theorem decodeUtf8?_encodeUtf8 (text : Text) : decodeUtf8? (encodeUtf8 text) = some text := by
  have h : String.fromUTF8? (String.ofList text).toByteArray = some (String.ofList text) :=
    dif_pos (String.ofList text).isValidUTF8
  simpa [decodeUtf8?, encodeUtf8] using congrArg (Option.map String.toList) h

end PocketCalculator
