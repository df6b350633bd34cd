import TimeSwitch.Proofs.Wire.Encoding
import TimeSwitch.Proofs.Wire.LineReports

/-!
Whether an encoded request comes through the framing as the one line that it was meant to be. All
that encoding writes by itself is printable, but it takes over the text of a trigger as it is. So a
request is one line exactly when that text has nothing in it but what a line may hold.
-/

namespace TimeSwitch

/-- The characters that a line may hold. -/
structure IsLineCharacter (c : Char) : Prop where
  ascii : c.toNat < 128
  not_zero : c ≠ '\x00'
  not_return : c ≠ '\r'
  not_feed : c ≠ '\n'

instance (c : Char) : Decidable (IsLineCharacter c) :=
  decidable_of_iff (c.toNat < 128 ∧ c ≠ '\x00' ∧ c ≠ '\r' ∧ c ≠ '\n')
    ⟨fun h => ⟨h.1, h.2.1, h.2.2.1, h.2.2.2⟩,
      fun h => ⟨h.ascii, h.not_zero, h.not_return, h.not_feed⟩⟩

theorem isLineCharacter_of_isPrintable {text : List Char} (h : IsPrintable text) :
    ∀ c ∈ text, IsLineCharacter c := by
  intro c hc
  obtain ⟨hlow, hhigh⟩ := h c hc
  constructor
  · omega
  all_goals
    rintro rfl
    exact absurd hlow (by decide)

namespace Wire

open Octets

/-! ### Characters and octets -/

theorem isLineOctet_ofNat {c : Char} (h : c.toNat < 128) :
    isLineOctet (UInt8.ofNat c.toNat) = true ↔ IsLineCharacter c := by
  have hsame (n : UInt8) (d : Char) (hn : n.toNat = d.toNat) :
      UInt8.ofNat c.toNat = n ↔ c = d := by
    rw [← UInt8.toNat_inj, UInt8.toNat_ofNat_of_lt' (show c.toNat < 256 by omega), hn,
      Char.toNat_inj]
  have hlt : UInt8.ofNat c.toNat < 128 := by
    rw [UInt8.lt_iff_toNat_lt, UInt8.toNat_ofNat_of_lt' (show c.toNat < 256 by omega)]
    exact h
  simp only [isLineOctet, isLineEnd, hlt, Bool.and_eq_true, bne_iff_ne, ne_eq, decide_true,
    and_true, Bool.not_eq_true', Bool.or_eq_false_iff, beq_eq_false_iff_ne,
    hsame 0 '\x00' rfl, hsame 13 '\r' rfl, hsame 10 '\n' rfl]
  constructor
  · rintro ⟨hzero, hreturn, hfeed⟩
    exact ⟨h, hzero, hreturn, hfeed⟩
  · rintro ⟨-, hzero, hreturn, hfeed⟩
    exact ⟨hzero, hreturn, hfeed⟩

/-- The first octet of a character beyond ASCII is none of a line. -/
theorem exists_octet_of_not_ascii {c : Char} (h : ¬c.toNat < 128) :
    ∃ b ∈ String.utf8EncodeChar c, isLineOctet b = false := by
  have hvalue : c.val.toNat = c.toNat := rfl
  have hhigh (n : Nat) (hlow : 128 ≤ n) (hlt : n < 256) : isLineOctet (UInt8.ofNat n) = false := by
    have hnot : ¬UInt8.ofNat n < 128 := by
      rw [UInt8.lt_iff_toNat_lt, UInt8.toNat_ofNat_of_lt' hlt]
      exact Nat.not_lt.2 hlow
    simp [isLineOctet, hnot]
  rw [String.utf8EncodeChar, if_neg (by omega)]
  split
  · exact ⟨_, List.mem_cons_self, hhigh _ (by omega) (by omega)⟩
  · split
    · exact ⟨_, List.mem_cons_self, hhigh _ (by omega) (by omega)⟩
    · exact ⟨_, List.mem_cons_self, hhigh _ (by omega) (by omega)⟩

/-- A text goes into a line if and only if all its characters do. -/
theorem isLineOctet_ofText_iff {text : List Char} :
    (∀ b ∈ ofText text, isLineOctet b) ↔ ∀ c ∈ text, IsLineCharacter c := by
  induction text with
  | nil => simp
  | cons c text ih =>
      rw [List.forall_mem_cons, ← ih]
      by_cases hascii : c.toNat < 128
      · rw [ofText_cons_of_ascii hascii, List.forall_mem_cons, isLineOctet_ofNat hascii]
      · obtain ⟨b, hb, hnot⟩ := exists_octet_of_not_ascii hascii
        refine iff_of_false (fun hoctets => ?_) fun hchars => hascii hchars.1.ascii
        rw [ofText_cons] at hoctets
        rw [hoctets b (List.mem_append_left _ hb)] at hnot
        cases hnot

/-! ### Encoded requests -/

/-- The text that a request carries as it is. -/
def Request.formula? : Request → Option String
  | .setTrigger _ formula => some formula
  | _ => none

theorem isPrintable_lineText {r : Request} (h : r.formula? = none) : IsPrintable r.lineText := by
  cases r with
  | setTrigger => cases h
  | setAlarm slot s => exact isPrintable_setAlarm slot s
  | setDirection channel direction =>
      cases direction <;>
        simp [Request.lineText, Request.kind, RequestKind.tag, Request.bodyText,
          isPrintable_numeral, Direction.word]
  | setClock | readClock | clearAlarm | clearTrigger | readChannel | reset =>
      simp [Request.lineText, Request.kind, RequestKind.tag, Request.bodyText,
        isPrintable_numeral, isPrintable_render]

/-- All the rest of a line is printable. -/
theorem isLineCharacter_lineText_iff (r : Request) :
    (∀ c ∈ r.lineText, IsLineCharacter c) ↔
      ∀ formula ∈ r.formula?, ∀ c ∈ formula.toList, IsLineCharacter c := by
  cases hformula : r.formula? with
  | none => simpa using isLineCharacter_of_isPrintable (isPrintable_lineText hformula)
  | some formula =>
      cases r with
      | setTrigger channel text =>
          cases hformula
          have hfront : IsPrintable ('E' :: (Decimal.numeral channel ++ [' '])) := by
            simp [isPrintable_numeral]
          have hline : (Request.setTrigger channel formula).lineText =
              'E' :: (Decimal.numeral channel ++ [' ']) ++ formula.toList := by
            simp [Request.lineText, Request.kind, RequestKind.tag, Request.bodyText]
          rw [hline, List.forall_mem_append,
            and_iff_right (isLineCharacter_of_isPrintable hfront)]
          simp
      | setClock | readClock | setAlarm | clearAlarm | clearTrigger | setDirection | readChannel
        | reset => cases hformula

theorem isMessage_encode_iff {r : Request} {line : Octets} (h : r.encode = .ok line) :
    IsMessage line ↔ ∀ formula ∈ r.formula?, ∀ c ∈ formula.toList, IsLineCharacter c := by
  obtain ⟨rfl, hfits⟩ := encode_eq_ok.1 h
  rw [← isLineCharacter_lineText_iff, ← isLineOctet_ofText_iff]
  refine ⟨IsMessage.octets, fun hoctets => ⟨?_, hfits, hoctets⟩⟩
  rw [ofText_lineText]
  exact Nat.succ_pos _

/-- A line and its end are reported as that line and nothing else if the line is a message, and only
then. -/
theorem feedAll_eq_line_iff {line : Octets} {b : UInt8} (hb : isLineEnd b = true) :
    Framer.start.feedAll 0 (line ++ [b]) = ([(line.length, .line line)], Framer.start) ↔
      IsMessage line := by
  constructor
  · intro hfeed
    rw [Framer.feedAll_start] at hfeed
    have hreports : reports 0 ((line ++ [b]).splitOnP isLineEnd) = [(line.length, .line line)] :=
      congrArg Prod.fst hfeed
    have hline : (line.length, .line line) ∈ reports 0 ((line ++ [b]).splitOnP isLineEnd) := by
      rw [hreports]
      exact List.mem_singleton_self _
    exact isMessage_of_mem_reports hline
  · intro hmessage
    have hinside : ∀ c ∈ line, isLineEnd c = false := by
      intro c hc
      have := hmessage.octets c hc
      simp only [isLineOctet, Bool.and_eq_true, Bool.not_eq_true'] at this
      exact this.2
    rw [Framer.feedAll_lineEnd hinside hb, (report?_of_isMessage hmessage).1]
    simp

/-- A request that can be encoded comes through the framing as its line and nothing else if and only
if the text that it carries, if it is one that sets a trigger, has nothing in it but ASCII
characters other than NUL and the line ends. -/
theorem encoded_request_is_one_line (r : Request) (line : Octets) (h : r.encode = .ok line)
    (b : UInt8) (hb : isLineEnd b = true) :
    Framer.start.feedAll 0 (line ++ [b]) = ([(line.length, .line line)], Framer.start) ↔
      ∀ formula ∈ r.formula?, ∀ c ∈ formula.toList, IsLineCharacter c :=
  (feedAll_eq_line_iff hb).trans (isMessage_encode_iff h)

/-- A tab is an ASCII character, so it is taken into a line like any other. -/
theorem encoded_request_is_one_line_tab :
    let r := Request.setTrigger 3 "0|\t(1&!2)"
    let line := ofText "E3 0|\t(1&!2)".toList
    r.encode = .ok line ∧ isLineEnd 13 = true ∧
      Framer.start.feedAll 0 (line ++ [13]) = ([(12, .line line)], Framer.start) := by
  intro r line
  have h : r.encode = .ok line := by rfl
  have hb : isLineEnd 13 = true := by rfl
  have hall : "0|\t(1&!2)".toList.all fun c => IsLineCharacter c := by decide
  have hchars : ∀ formula ∈ r.formula?, ∀ c ∈ formula.toList, IsLineCharacter c := by
    rintro formula ⟨⟩ c hc
    exact of_decide_eq_true (List.all_eq_true.1 hall c hc)
  exact ⟨h, hb, (encoded_request_is_one_line r line h 13 hb).2 hchars⟩

/-- The text of a trigger with a line feed in it. What was one request is taken for two, and the
second one resets the device. -/
theorem encoded_request_is_two_lines :
    let r := Request.setTrigger 0 "1\nI"
    let line := ofText "E0 1\nI".toList
    let first := ofText "E0 1".toList
    let second := ofText "I".toList
    r.encode = .ok line ∧
      Framer.start.feedAll 0 (line ++ [10]) =
        ([(4, .line first), (6, .line second)], Framer.start) ∧
      Request.decode first = .ok (.setTrigger 0 "1") ∧ Request.decode second = .ok .reset := by
  exact ⟨by rfl, by rfl, by rfl, by rfl⟩

end Wire

end TimeSwitch
