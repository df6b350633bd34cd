/-!
Text and the octets that carry it. Text goes out in UTF-8; the octets of a request are ASCII,
so one octet comes in as one character.
-/

namespace TimeSwitch

/-- What travels over a serial link. -/
abbrev Octets := List UInt8

namespace Octets

/-- The octets that carry a text. -/
def ofText (text : List Char) : Octets :=
  text.flatMap String.utf8EncodeChar

/-- The text of ASCII octets, one character each. -/
def toText (octets : Octets) : List Char :=
  octets.map fun b => Char.ofNat b.toNat

/-- The longest run of whole characters from the front that takes at most `room` octets. -/
def leading : (room : Nat) → List Char → List Char
  | _, [] => []
  | room, c :: text => if c.utf8Size ≤ room then c :: leading (room - c.utf8Size) text else []

@[simp] theorem ofText_nil : ofText [] = [] := rfl

@[simp] theorem ofText_cons (c : Char) (text : List Char) :
    ofText (c :: text) = String.utf8EncodeChar c ++ ofText text := by
  simp [ofText]

@[simp] theorem ofText_append (a b : List Char) : ofText (a ++ b) = ofText a ++ ofText b := by
  simp [ofText]

/-- A text is as large as the octets that carry it. -/
theorem utf8ByteSize_ofList (text : List Char) :
    (String.ofList text).utf8ByteSize = (ofText text).length := by
  rw [String.utf8ByteSize, String.toByteArray_ofList, List.utf8Encode]
  exact List.size_toByteArray

theorem length_le_length_ofText (text : List Char) : text.length ≤ (ofText text).length := by
  induction text with
  | nil => simp
  | cons c text ih =>
    have := c.utf8Size_pos
    rw [ofText_cons, List.length_append, String.length_utf8EncodeChar, List.length_cons]
    omega

/-- A character takes an octet at least. -/
theorem length_toList_le (text : String) : text.toList.length ≤ text.utf8ByteSize := by
  have hlength := length_le_length_ofText text.toList
  rwa [← utf8ByteSize_ofList, String.ofList_toList] at hlength

/-- A text that fits is kept whole. -/
theorem leading_eq_self {room : Nat} {text : List Char} (h : (ofText text).length ≤ room) :
    leading room text = text := by
  induction text generalizing room with
  | nil => rfl
  | cons c text ih =>
    simp only [ofText_cons, List.length_append, String.length_utf8EncodeChar] at h
    rw [leading, if_pos (by omega), ih (by omega)]

theorem leading_isPrefix (room : Nat) (text : List Char) : leading room text <+: text := by
  induction text generalizing room with
  | nil => exact List.prefix_rfl
  | cons c text ih =>
    unfold leading
    split
    · exact List.cons_prefix_cons.2 ⟨rfl, ih _⟩
    · exact List.nil_prefix

/-- Behind a text that fits, what is left of the room is taken up. -/
theorem leading_append {room : Nat} {a : List Char} (b : List Char) (h : (ofText a).length ≤ room) :
    leading room (a ++ b) = a ++ leading (room - (ofText a).length) b := by
  induction a generalizing room with
  | nil => rfl
  | cons c a ih =>
    simp only [ofText_cons, List.length_append, String.length_utf8EncodeChar] at h ⊢
    rw [List.cons_append, leading, if_pos (by omega), ih (by omega), Nat.sub_sub, List.cons_append]

end Octets

end TimeSwitch
