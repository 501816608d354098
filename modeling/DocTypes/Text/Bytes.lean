import DocTypes.Text.Basic

/-! # Texts as bytes

Names of files and paths are bytes, and not all bytes are a text.  `Text.utf8` writes a text in
bytes, and `Bytes.text?` reads one, if the bytes are one; they are inverse to one another
(`Bytes.text?_eq_some_iff`).  A text may stand wherever bytes are expected.

Where a message shows bytes that are no text, `Bytes.shown` puts a replacement character for each
sequence that breaks off or stands for nothing. -/

namespace DocTypes

/-- Bytes, as the list of them. -/
abbrev Bytes := List UInt8

/-- The bytes that a text is written in. -/
def Text.utf8 (t : Text) : Bytes := t.flatMap String.utf8EncodeChar

instance : Coe Text Bytes := ⟨Text.utf8⟩

namespace Bytes

/-- The text that is written in bytes, if there is one. -/
def text? (bytes : Bytes) : Option Text := bytes.toByteArray.utf8Decode?.map Array.toList

/-! ## Bytes in print -/

/-- Whether a first byte announces more than two of them, and the second is one that may follow. -/
def opens (first second : UInt8) : Bool :=
  -- Smaller ones would write what fewer bytes do, and larger ones no character.
  let least : UInt8 := if first = 0xE0 then 0xA0 else if first = 0xF0 then 0x90 else 0x80
  let greatest : UInt8 := if first = 0xED then 0x9F else if first = 0xF4 then 0x8F else 0xBF
  0xE0 ≤ first && first ≤ 0xF4 && least ≤ second && second ≤ greatest

/-- The number of bytes in front that belong together, where they are the beginning of no
character. -/
def brokenLength : Bytes → Nat
  | first :: second :: rest =>
    if opens first second then
      match rest with
      | third :: _ => if 0xF0 ≤ first && 0x80 ≤ third && third ≤ 0xBF then 3 else 2
      | [] => 2
    else 1
  | _ => 1

/-- The text that is shown for bytes behind some that are passed over. -/
def shownFrom : Nat → Bytes → Text
  | _, [] => []
  | passed + 1, _ :: rest => shownFrom passed rest
  | 0, first :: rest =>
    match (first :: rest).toByteArray.utf8DecodeChar? 0 with
    | some c => c :: shownFrom (c.utf8Size - 1) rest
    | none => '\uFFFD' :: shownFrom (brokenLength (first :: rest) - 1) rest

/-- The text that is shown for bytes. -/
def shown (bytes : Bytes) : Text := shownFrom 0 bytes

/-! ## Reading what was written -/

variable {bytes : Bytes} {t : Text}

/-- **The text of bytes is the one that they write.** -/
theorem text?_eq_some_iff : bytes.text? = some t ↔ bytes = t.utf8 := by
  unfold text?
  constructor
  · intro h
    obtain ⟨decoded, hdecoded, rfl⟩ := Option.map_eq_some_iff.mp h
    have hencoded : List.utf8Encode decoded.toList = bytes.toByteArray := by
      have hget : bytes.toByteArray.utf8Decode?.get (by simp [hdecoded]) = decoded := by
        simp [hdecoded]
      rw [← hget, ByteArray.utf8Encode_get_utf8Decode?]
    exact (List.toByteArray_inj.mp hencoded).symm
  · rintro rfl
    have hdecoded : t.utf8.toByteArray.utf8Decode? = some t.toArray := List.utf8Decode?_utf8Encode
    rw [hdecoded]
    rfl

/-- What is passed over is not shown. -/
theorem shownFrom_append (passed rest : Bytes) :
    shownFrom passed.length (passed ++ rest) = shownFrom 0 rest := by
  induction passed with
  | nil => rfl
  | cons byte passed ih => exact ih

/-- The bytes of a character are shown as that character. -/
theorem shownFrom_utf8EncodeChar (c : Char) (rest : Bytes) :
    shownFrom 0 (String.utf8EncodeChar c ++ rest) = c :: shownFrom 0 rest := by
  have hlength : (String.utf8EncodeChar c).length = c.utf8Size := String.length_utf8EncodeChar c
  have hdecoded : (String.utf8EncodeChar c ++ rest).toByteArray.utf8DecodeChar? 0 = some c := by
    rw [List.toByteArray_append, ByteArray.utf8DecodeChar?_utf8EncodeChar_append]
  cases hencoded : String.utf8EncodeChar c with
  | nil =>
    rw [hencoded] at hlength
    exact absurd hlength (Nat.ne_of_lt c.utf8Size_pos)
  | cons first more =>
    rw [hencoded] at hlength hdecoded
    have hmore : c.utf8Size - 1 = more.length := by
      rw [← hlength]
      rfl
    rw [List.cons_append] at hdecoded ⊢
    rw [shownFrom, hdecoded]
    dsimp only
    rw [hmore, shownFrom_append]

/-- **Bytes that write a text are shown as that text.** -/
theorem shown_utf8 (t : Text) : t.utf8.shown = t := by
  unfold shown
  induction t with
  | nil => rfl
  | cons c t ih =>
    have hutf8 : Text.utf8 (c :: t) = String.utf8EncodeChar c ++ Text.utf8 t := List.flatMap_cons
    rw [hutf8, shownFrom_utf8EncodeChar, ih]

end Bytes
end DocTypes
