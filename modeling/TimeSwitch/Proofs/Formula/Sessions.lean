import TimeSwitch.Proofs.Formula.FaultBounds
import TimeSwitch.Proofs.Formula.Storing

/-!
What a session of parsing tells after a text, whatever texts came before it. The message is written
piece by piece, and a piece that does not fit would not keep the next one from being added. Only the
last piece ever has to be cut, though, and that one has a single octet for each character: so the
message is the front of the whole text of the fault, octet for octet.
-/

namespace TimeSwitch.Formula

open Octets

/-! ### Pieces -/

namespace Session

theorem write_eq {message piece : List Char}
    (h : (ofText (message ++ piece)).length ≤ messageLimit) :
    write message piece = message ++ piece := by
  rw [ofText_append, List.length_append] at h
  rw [write, leading_eq_self (by omega)]

/-- Pieces that fit are added whole. -/
theorem foldl_write {message : List Char} {pieces : List (List Char)}
    (h : (ofText (message ++ pieces.flatten)).length ≤ messageLimit) :
    pieces.foldl write message = message ++ pieces.flatten := by
  induction pieces generalizing message with
  | nil => rw [List.foldl_nil, List.flatten_nil, List.append_nil]
  | cons piece pieces ih =>
      rw [List.flatten_cons, ← List.append_assoc] at h ⊢
      have hpiece : (ofText (message ++ piece)).length ≤ messageLimit := by
        rw [ofText_append, List.length_append] at h
        omega
      rw [List.foldl_cons, write_eq hpiece, ih h]

/-- Where only the last piece may be too long, what is written is the front of all of them. -/
theorem foldl_write_concat {front : List (List Char)} (last : List Char)
    (h : (ofText front.flatten).length ≤ messageLimit) :
    (front ++ [last]).foldl write [] = leading messageLimit (front ++ [last]).flatten := by
  rw [List.foldl_append, @foldl_write [] front h, List.flatten_append, List.flatten_singleton,
    leading_append last h]
  rfl

end Session

namespace Fault

/-- Pieces of a message that may be cut in the last one only, and not even there if the text is not
extremely long. -/
structure LastCut (length : Nat) (front : List (List Char)) (last : List Char) : Prop where
  ascii : IsAscii last
  fits : (ofText front.flatten).length ≤ Session.messageLimit
  whole : length < 10 ^ 8 → (ofText front.flatten).length + last.length ≤ Session.messageLimit

variable {length : Nat} {front : List (List Char)}

theorem LastCut.position {position : Nat} (h : position ≤ length)
    (hfront : (ofText front.flatten).length ≤ 21) :
    LastCut length front (Decimal.numeral position) where
  ascii := isAscii_numeral position
  fits := hfront.trans (by decide)
  whole hlength := by
    have hdigits : (Decimal.numeral position).length ≤ 8 :=
      (Nat.length_toDigits_le_iff (by decide) (by decide)).2 (Nat.lt_of_le_of_lt h hlength)
    simp only [Session.messageLimit]
    omega

theorem LastCut.number {value : Nat} {last : List Char} (h : value < 10 ^ 4) (hascii : IsAscii last)
    (hlast : last.length ≤ 22) :
    LastCut length ["id ".toList, Decimal.numeral value] last := by
  have hid : (ofText "id ".toList).length = 3 := by decide
  have hdigits : (Decimal.numeral value).length ≤ 4 :=
    (Nat.length_toDigits_le_iff (by decide) (by decide)).2 h
  have hfront : (ofText ["id ".toList, Decimal.numeral value].flatten).length ≤ 7 := by
    simp only [List.flatten_cons, List.flatten_nil, List.append_nil, ofText_append,
      List.length_append, hid, length_ofText (isAscii_numeral value)]
    omega
  refine ⟨hascii, hfront.trans (by decide), fun _ => ?_⟩
  simp only [Session.messageLimit]
  omega

theorem length_quoted_le (c : Char) :
    (ofText ["unexpected '".toList, [c], "' at ".toList].flatten).length ≤ 21 := by
  have hsize := c.utf8Size_le_four
  have hopen : (ofText "unexpected '".toList).length = 12 := by decide
  have hclose : (ofText "' at ".toList).length = 5 := by decide
  simp only [List.flatten_cons, List.flatten_nil, List.append_nil, ofText_append, ofText_cons,
    ofText_nil, List.length_append, String.length_utf8EncodeChar, hopen, hclose]
  omega

theorem Within.lastCut {fault : Fault} (h : fault.Within length) :
    ∃ front last, fault.pieces = front ++ [last] ∧ LastCut length front last := by
  cases fault with
  | stray c position => exact ⟨[_, _, _], _, rfl, .position h (length_quoted_le c)⟩
  | unexpected symbol position =>
      cases symbol with
      | some c => exact ⟨[_, _, _], _, rfl, .position h (length_quoted_le c)⟩
      | none => exact ⟨[_], _, rfl, .position h (by decide)⟩
  | unclosed position => exact ⟨[_], _, rfl, .position h (by decide)⟩
  | numberTooLarge value truncated =>
      cases truncated with
      | false => exact ⟨[_, _], _, rfl, .number h (by decide) (by decide)⟩
      | true => exact ⟨[_, _], _, rfl, .number h (by decide) (by decide)⟩
  | noSuchSignal value => exact ⟨[_, _], _, rfl, .number h (by decide) (by decide)⟩
  | tooManyNodes => exact ⟨[_, _], _, rfl, by decide, by decide, fun _ => by decide⟩

/-- What is written of a fault is the front of its words, octet for octet. -/
theorem Within.written {fault : Fault} (h : fault.Within length) :
    fault.pieces.foldl Session.write [] <+: fault.message ∧
      ofText (fault.pieces.foldl Session.write []) =
        (ofText fault.message).take Session.messageLimit ∧
      (length < 10 ^ 8 → fault.pieces.foldl Session.write [] = fault.message) := by
  obtain ⟨front, last, hpieces, hascii, hfits, hwhole⟩ := h.lastCut
  rw [message, hpieces, Session.foldl_write_concat last hfits]
  refine ⟨leading_isPrefix _ _, ?_, fun hlength => leading_eq_self ?_⟩
  · rw [List.flatten_append, List.flatten_singleton, leading_append last hfits, ofText_append,
      ofText_append, List.take_append, List.take_of_length_le hfits, ofText_leading hascii]
  · rw [List.flatten_append, List.flatten_singleton, ofText_append, List.length_append,
      length_ofText hascii]
    exact hwhole hlength

end Fault

namespace Session

/-- What a session tells of the text that came last. If it was accepted, there is no message. If it
was refused, the message is the front of the words of its fault, cut between characters, and nothing
is cut off unless the text is extremely long. -/
structure Tells (session : Session) (text : String) : Prop where
  last : session.last = some (Expression.parse text)
  succeeded : session.succeeded = true ↔ ∃ e, Expression.parse text = .ok e
  accepted : ∀ e, Expression.parse text = .ok e → session.message = [] ∧ session.store = e.nodes ∧
    ∀ value, session.evaluate value = e.evaluate value ∧
      session.calls value = (e.evaluateTraced value).2
  refused : ∀ fault, Expression.parse text = .error fault →
    session.message <+: fault.message ∧
    ofText session.message = (ofText fault.message).take messageLimit ∧
    (text.utf8ByteSize < 10 ^ 8 → session.message = fault.message)

theorem tells_parse (session : Session) (text : String) : (session.parse text).Tells text := by
  refine ⟨last_parse session text, succeeded_parse, ?_, ?_⟩
  · intro e he
    obtain ⟨e', he', hsession⟩ | ⟨fault, store, hfault, -⟩ := session.parse_cases text
    · obtain rfl := Except.ok.inj (he'.symm.trans he)
      rw [hsession]
      exact ⟨rfl, rfl, fun value => ⟨rfl, rfl⟩⟩
    · rw [he] at hfault
      cases hfault
  · intro fault hfault
    obtain ⟨e, he, -⟩ | ⟨fault', store, hfault', hsession⟩ := session.parse_cases text
    · rw [hfault] at he
      cases he
    · obtain rfl := Except.error.inj (hfault'.symm.trans hfault)
      rw [hsession]
      exact (Expression.within_of_parse hfault).written

/-- After any texts, one more text is parsed as if it were the first one: nothing is left of what
was there before. -/
theorem parse_carries_nothing_over (texts : List String) (text : String) :
    (texts.foldl parse start).parse text = start.parse text ∧
      ((texts.foldl parse start).parse text).Tells text :=
  ⟨parse_eq_start _ text, tells_parse _ text⟩

/-- A text that takes too many nodes and one that is refused come first. Then a character of two
octets stands where it may not. -/
theorem parse_carries_nothing_over_stray :
    Expression.parse "1 & é" = .error (.stray 'é' 4) ∧ "1 & é".utf8ByteSize < 10 ^ 8 ∧
      ∃ used, [String.ofList (List.replicate 43 '('), "2|)", "1 & é"].foldl parse start = used ∧
        used.last = some (.error (.stray 'é' 4)) ∧ ¬used.succeeded = true ∧
        used.message = "unexpected 'é' at 4".toList := by
  have hparse : Expression.parse "1 & é" = .error (.stray 'é' 4) := by cbv
  have hsize : "1 & é".utf8ByteSize < 10 ^ 8 := by decide
  obtain ⟨-, hlast, hsucceeded, -, hrefused⟩ :=
    parse_carries_nothing_over [String.ofList (List.replicate 43 '('), "2|)"] "1 & é"
  rw [hparse] at hlast hsucceeded
  refine ⟨hparse, hsize, _, rfl, hlast, ?_, ?_⟩
  · intro h
    obtain ⟨e, he⟩ := hsucceeded.1 h
    cases he
  · exact ((hrefused _ hparse).2.2 hsize).trans (by decide)

end Session

end TimeSwitch.Formula
