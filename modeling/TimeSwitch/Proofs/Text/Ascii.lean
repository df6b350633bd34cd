import TimeSwitch.Text.Decimal
import TimeSwitch.Text.Octets

/-!
ASCII text, which goes out as one octet for each character and comes back unchanged. Numerals
are ASCII; two digits and the number they stand for determine each other.
-/

namespace TimeSwitch

def IsAscii (text : List Char) : Prop :=
  ∀ c ∈ text, c.toNat < 128

instance (text : List Char) : Decidable (IsAscii text) :=
  List.decidableBAll (fun c : Char => c.toNat < 128) text

section

variable {a b : List Char} {c : Char}

@[simp] theorem isAscii_nil : IsAscii [] := by simp [IsAscii]

@[simp] theorem isAscii_cons : IsAscii (c :: a) ↔ c.toNat < 128 ∧ IsAscii a :=
  List.forall_mem_cons

@[simp] theorem isAscii_append : IsAscii (a ++ b) ↔ IsAscii a ∧ IsAscii b :=
  List.forall_mem_append

theorem toNat_of_isDigit (h : c.isDigit) : 48 ≤ c.toNat ∧ c.toNat ≤ 57 := by
  simpa [Char.isDigit, UInt32.le_iff_toNat_le] using h

theorem isAscii_of_isDigit (h : ∀ c ∈ a, c.isDigit) : IsAscii a := by
  intro c hc
  have := toNat_of_isDigit (h c hc)
  omega

@[simp] theorem isAscii_numeral (n : Nat) : IsAscii (Decimal.numeral n) :=
  isAscii_of_isDigit fun _ => Decimal.isDigit_of_mem_numeral

@[simp] theorem isAscii_padded (width n : Nat) : IsAscii (Decimal.padded width n) :=
  isAscii_of_isDigit fun _ => Decimal.isDigit_of_mem_padded

end

theorem toNat_charOfNat {n : Nat} (h : n < 256) : (Char.ofNat n).toNat = n := by
  have hvalid : n.isValidChar := .inl (by omega)
  rw [Char.ofNat, dif_pos hvalid]
  exact UInt32.toNat_ofNatLT

namespace Octets

variable {text : List Char} {octets : Octets} {c : Char}

theorem ofText_cons_of_ascii (h : c.toNat < 128) :
    ofText (c :: text) = UInt8.ofNat c.toNat :: ofText text := by
  rw [ofText_cons, String.utf8EncodeChar, if_pos (by simpa using Nat.lt_succ_iff.1 h)]
  rfl

theorem ofText_eq_map (h : IsAscii text) :
    ofText text = text.map fun c => UInt8.ofNat c.toNat := by
  induction text with
  | nil => rfl
  | cons c text ih =>
      rw [isAscii_cons] at h
      rw [ofText_cons_of_ascii h.1, ih h.2, List.map_cons]

theorem length_ofText (h : IsAscii text) : (ofText text).length = text.length := by
  simp [ofText_eq_map h]

/-- Of ASCII text, so many octets are carried as there is room for. -/
theorem ofText_leading {room : Nat} (h : IsAscii text) :
    ofText (leading room text) = (ofText text).take room := by
  induction text generalizing room with
  | nil => rw [leading, ofText_nil, List.take_nil]
  | cons c text ih =>
      obtain ⟨hc, htext⟩ := isAscii_cons.1 h
      have hsize : c.utf8Size = 1 := Char.utf8Size_eq_one_iff.2 (Nat.le_of_lt_succ hc)
      rw [leading, hsize, ofText_cons_of_ascii hc]
      cases room with
      | zero => rfl
      | succ room =>
          rw [if_pos (Nat.le_add_left 1 room), ofText_cons_of_ascii hc, ih htext,
            List.take_succ_cons, Nat.add_sub_cancel]

theorem toText_ofText (h : IsAscii text) : toText (ofText text) = text := by
  rw [ofText_eq_map h, toText, List.map_map]
  refine (List.map_congr_left fun c hc => ?_).trans (List.map_id text)
  have hc := h c hc
  simp [Nat.mod_eq_of_lt (show c.toNat < 256 by omega)]

theorem isAscii_toText (h : ∀ b ∈ octets, b < 128) : IsAscii (toText octets) := by
  simp only [IsAscii, toText, List.forall_mem_map]
  intro b hb
  rw [toNat_charOfNat b.toNat_lt]
  exact UInt8.lt_iff_toNat_lt.1 (h b hb)

theorem ofText_toText (h : ∀ b ∈ octets, b < 128) : ofText (toText octets) = octets := by
  rw [ofText_eq_map (isAscii_toText h), toText, List.map_map]
  refine (List.map_congr_left fun b _ => ?_).trans (List.map_id octets)
  simp [toNat_charOfNat b.toNat_lt]

theorem toText_eq_iff (h : IsAscii text) : toText octets = text ↔ octets = ofText text := by
  constructor
  · rintro rfl
    refine (ofText_toText fun b hb => ?_).symm
    have := h (Char.ofNat b.toNat) (List.mem_map_of_mem hb)
    rw [toNat_charOfNat b.toNat_lt] at this
    exact UInt8.lt_iff_toNat_lt.2 this
  · rintro rfl
    exact toText_ofText h

theorem ofText_inj {text' : List Char} (h : IsAscii text) (h' : IsAscii text') :
    ofText text = ofText text' ↔ text = text' := by
  rw [← toText_eq_iff h', toText_ofText h]

theorem lt_of_mem_ofText (h : IsAscii text) : ∀ b ∈ ofText text, b < 128 := by
  rw [ofText_eq_map h, List.forall_mem_map]
  intro c hc
  have := h c hc
  rw [UInt8.lt_iff_toNat_lt, UInt8.toNat_ofNat_of_lt' (show c.toNat < 256 by omega)]
  exact this

/-- The octet of a digit. -/
def ofDigit (n : Nat) : UInt8 := UInt8.ofNat (48 + n)

theorem toNat_ofDigit {n : Nat} (h : n < 10) : (ofDigit n).toNat = 48 + n :=
  UInt8.toNat_ofNat_of_lt' (show 48 + n < 256 by omega)

theorem ofText_numeral {n : Nat} (h : n < 10) : ofText (Decimal.numeral n) = [ofDigit n] := by
  rw [Decimal.numeral_of_lt_ten h, ofText_eq_map (by simp [Nat.toNat_digitChar_of_lt_ten h]; omega)]
  simp [Nat.toNat_digitChar_of_lt_ten h, ofDigit]

theorem ofText_padded_two {n : Nat} (h : n < 100) :
    ofText (Decimal.padded 2 n) = [ofDigit (n / 10), ofDigit (n % 10)] := by
  rw [ofText_eq_map (isAscii_padded 2 n), Decimal.padded_two_of_lt h]
  simp [Nat.toNat_digitChar_of_lt_ten (show n / 10 < 10 by omega),
    Nat.toNat_digitChar_of_lt_ten (show n % 10 < 10 by omega), ofDigit]

end Octets

end TimeSwitch
