import Reskin.Text.Basic

/-!
# Bytes of a text

## Main definitions

* `Text.utf8`: the bytes of a text
* `Text.ofUtf8?`: the text with the given bytes
* `Text.utf8Length`: how many bytes a text takes

## Main results

* `Text.ofUtf8?_utf8`: the bytes of a text read back
* `Text.ofUtf8?_eq_some`: no other bytes read as the text
-/

namespace Reskin.Text

/-- The bytes of a text in UTF-8. -/
def utf8 (t : Text) : ByteArray := (String.ofList t).toUTF8

/-- The text with the given bytes, if they are UTF-8. -/
def ofUtf8? (bytes : ByteArray) : Option Text := (String.fromUTF8? bytes).map String.toList

/-- The number of bytes of a text. -/
def utf8Length (t : Text) : Nat := t.foldr (fun c n => c.utf8Size + n) 0

theorem ofUtf8?_utf8 (t : Text) : ofUtf8? (utf8 t) = some t := by
  have h : (String.ofList t).toUTF8.IsValidUTF8 := (String.ofList t).isValidUTF8
  unfold ofUtf8? utf8 String.fromUTF8?
  rw [dif_pos h]
  exact congrArg some String.toList_ofList

/-- **A text has one row of bytes.** -/
theorem ofUtf8?_eq_some {bytes : ByteArray} {t : Text} : ofUtf8? bytes = some t ↔ bytes = t.utf8 := by
  constructor
  · intro h
    obtain ⟨s, hs, rfl⟩ := Option.map_eq_some_iff.1 h
    unfold String.fromUTF8? at hs
    split at hs
    · obtain rfl := Option.some.inj hs
      simp [utf8, String.fromUTF8]
    · cases hs
  · rintro rfl
    exact ofUtf8?_utf8 t

end Reskin.Text
