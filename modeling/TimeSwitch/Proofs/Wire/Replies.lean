import TimeSwitch.Proofs.Calendar.Existing
import TimeSwitch.Proofs.Sequence
import TimeSwitch.Proofs.Wire.Written
import TimeSwitch.Wire.Exchange

/-!
Replies are messages, too. What a device has to say is printable, so a reply never ends a line
or holds an octet that a line may not hold.
-/

namespace TimeSwitch

/-! ### Printable text -/

def IsPrintable (text : List Char) : Prop :=
  ∀ c ∈ text, 32 ≤ c.toNat ∧ c.toNat < 127

section

variable {a b : List Char} {c : Char}

@[simp] theorem isPrintable_nil : IsPrintable [] := by simp [IsPrintable]

@[simp] theorem isPrintable_cons :
    IsPrintable (c :: a) ↔ (32 ≤ c.toNat ∧ c.toNat < 127) ∧ IsPrintable a :=
  List.forall_mem_cons

@[simp] theorem isPrintable_append : IsPrintable (a ++ b) ↔ IsPrintable a ∧ IsPrintable b :=
  List.forall_mem_append

theorem isAscii_of_isPrintable (h : IsPrintable a) : IsAscii a := by
  intro c hc
  have := h c hc
  omega

@[simp] theorem isPrintable_padded (width n : Nat) : IsPrintable (Decimal.padded width n) := by
  intro c hc
  have := toNat_of_isDigit (Decimal.isDigit_of_mem_padded hc)
  omega

theorem isPrintable_abbreviation (day : Weekday) : IsPrintable day.abbreviation := by
  cases day <;> simp [Weekday.abbreviation]

theorem isPrintable_render (t : CivilTime) : IsPrintable t.render := by
  simp [CivilTime.render, isPrintable_abbreviation]

end

namespace Wire

open Sequence

theorem isLineOctet_of_isPrintable {text : List Char} (h : IsPrintable text) :
    ∀ b ∈ Octets.ofText text, isLineOctet b := by
  rw [Octets.ofText_eq_map (isAscii_of_isPrintable h), List.forall_mem_map]
  intro c hc
  obtain ⟨hlow, hhigh⟩ := h c hc
  have hvalue : (UInt8.ofNat c.toNat).toNat = c.toNat :=
    UInt8.toNat_ofNat_of_lt' (show c.toNat < 256 by omega)
  have hne (n : UInt8) (hn : n.toNat < 32) : UInt8.ofNat c.toNat ≠ n := by
    rintro rfl
    omega
  have hlt : UInt8.ofNat c.toNat < 128 := by
    rw [UInt8.lt_iff_toNat_lt, hvalue]
    exact Nat.lt_trans hhigh (by decide)
  simp [isLineOctet, isLineEnd, hlt, hne 0 (by decide), hne 13 (by decide), hne 10 (by decide)]

/-- What a device says of its own accord is printable. -/
theorem isPrintable_of_perform {σ : Type} {h : Handlers σ} {request : Request} {s s' : σ}
    {text : List Char} (hperform : h.perform request s = .ok (some text) s') :
    IsPrintable text := by
  cases request with
  | readClock =>
      obtain ⟨time, middle, -, hpure⟩ := step_bind_eq_ok.1 hperform
      obtain ⟨htext, -⟩ := step_pure_eq_ok.1 hpure
      cases htext
      exact isPrintable_render time
  | readChannel channel =>
      obtain ⟨reading, middle, -, hpure⟩ := step_bind_eq_ok.1 hperform
      obtain ⟨htext, -⟩ := step_pure_eq_ok.1 hpure
      cases htext
      cases reading <;> simp [Reading.symbol]
  | reset =>
      obtain ⟨_, middle, -, hpure⟩ := step_bind_eq_ok.1 hperform
      obtain ⟨htext, -⟩ := step_pure_eq_ok.1 hpure
      cases htext
      simp
  | setClock | setAlarm | clearAlarm | setTrigger | clearTrigger | setDirection =>
      obtain ⟨_, middle, -, hpure⟩ := step_bind_eq_ok.1 hperform
      obtain ⟨htext, -⟩ := step_pure_eq_ok.1 hpure
      cases htext

/-! ### Replies to a line -/

/-- A reply is a message and begins with `>` and the letter of the line that it answers. -/
structure Answers (line reply : Octets) : Prop where
  message : IsMessage reply
  two_le : 2 ≤ reply.length
  tagged : ∃ tag body more, line = tag :: body ∧ reply = 62 :: tag :: more

theorem answers_begin {tag : UInt8} {body more : Octets} (hline : IsMessage (tag :: body))
    (hfits : more.length + 2 ≤ lineLimit) (hmore : ∀ b ∈ more, isLineOctet b) :
    Answers (tag :: body) (62 :: tag :: more) := by
  refine ⟨⟨Nat.succ_pos _, hfits, ?_⟩, Nat.le_add_left 2 more.length, tag, body, more, rfl, rfl⟩
  rw [List.forall_mem_cons, List.forall_mem_cons]
  exact ⟨by decide, hline.octets tag List.mem_cons_self, hmore⟩

theorem answers_status {tag : UInt8} {body : Octets} (hline : IsMessage (tag :: body))
    (reply : Reply) (ok : Bool) : Answers (tag :: body) (reply.status tag ok).octets := by
  rw [Reply.octets_status]
  cases ok with
  | true => exact answers_begin hline (by decide) (isLineOctet_of_isPrintable (by simp))
  | false => exact answers_begin hline (by decide) (isLineOctet_of_isPrintable (by simp))

theorem answers_custom {tag : UInt8} {body : Octets} (hline : IsMessage (tag :: body))
    {text : List Char} (htext : IsPrintable text) {reply filled : Reply}
    (hfilled : (reply.begin tag).push? (Octets.ofText text) = some filled) :
    Answers (tag :: body) filled.octets := by
  have hoctets : filled.octets = 62 :: tag :: Octets.ofText text := Reply.octets_of_push? hfilled
  have hfits := filled.fits
  rw [hoctets] at hfits ⊢
  exact answers_begin hline hfits (isLineOctet_of_isPrintable htext)

end Wire

end TimeSwitch
