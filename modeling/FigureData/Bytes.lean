/-
  Bytes and the UTF-8 form of text.

  * `text?_ofText`: bytes made of a text read back as that text.
-/
namespace FigureData

/-- The content of a file. -/
abbrev Bytes := List UInt8

namespace Bytes

/-- The UTF-8 form of a text. -/
def ofText (s : String) : Bytes := s.toByteArray.data.toList

/-- The text whose UTF-8 form these bytes are. -/
def text? (bytes : Bytes) : Option String := String.fromUTF8? ⟨bytes.toArray⟩

def hexDigit (n : Nat) : Char := Nat.digitChar n

/-- Two lower-case hexadecimal digits a byte. -/
def hex (bytes : Bytes) : String :=
  String.ofList (bytes.flatMap fun b => [hexDigit (b.toNat / 16), hexDigit (b.toNat % 16)])

theorem text?_ofText (s : String) : text? (ofText s) = some s := by
  have h : (⟨s.toByteArray.data.toList.toArray⟩ : ByteArray) = s.toByteArray := by
    cases s.toByteArray
    simp
  simp only [text?, ofText, h, String.fromUTF8?]
  split
  · rfl
  · next hnot => exact absurd (String.isValidUTF8 s) (by simpa using hnot)

end Bytes

end FigureData
