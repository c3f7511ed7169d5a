/-!
# Text as bytes

The UTF-8 form of a text and its reading. Reading accepts exactly the well-formed sequences: no
surrogates, no overlong forms, nothing above U+10FFFF.
-/

namespace StackContract.Text

/-- The UTF-8 bytes of a text. -/
def utf8 (text : String) : List UInt8 :=
  text.toUTF8.data.toList

/-- The text that `bytes` spell in UTF-8, if they are well formed. -/
def ofUtf8? (bytes : List UInt8) : Option String :=
  String.fromUTF8? ⟨bytes.toArray⟩

end StackContract.Text
