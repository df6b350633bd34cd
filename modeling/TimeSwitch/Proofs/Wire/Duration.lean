import Mathlib.Algebra.Group.Nat.Defs
import TimeSwitch.Proofs.Wire.Fields

/-!
The duration of an alarm. It is cut off at the last blank that a `D` follows; an alarm that is
written without a duration has no such blank, so nothing of its other fields is lost.
-/

namespace TimeSwitch.Wire

open Octets Sequence

/-! ### The last marker -/

section Splitting

variable {octets before after word rest : Octets}

theorem splitDuration_cons (b : UInt8) (h : splitDuration rest = some (before, after)) :
    splitDuration (b :: rest) = some (b :: before, after) := by
  rw [splitDuration.eq_def]
  dsimp only
  rw [h]

theorem splitDuration_cons_of_ne {b : UInt8} (hb : b ≠ 32) (h : splitDuration rest = none) :
    splitDuration (b :: rest) = none := by
  rw [splitDuration.eq_def]
  dsimp only
  rw [h]
  simp [hb]

theorem splitDuration_append (hword : 32 ∉ word) (h : splitDuration rest = none) :
    splitDuration (word ++ rest) = none := by
  induction word with
  | nil => exact h
  | cons b word ih =>
      rw [List.mem_cons, not_or] at hword
      exact splitDuration_cons_of_ne (Ne.symm hword.1) (ih hword.2)

theorem eq_of_splitDuration (h : splitDuration octets = some (before, after)) :
    octets = before ++ 32 :: 68 :: after := by
  induction octets generalizing before with
  | nil => cases h
  | cons b octets ih =>
      rw [splitDuration.eq_def] at h
      dsimp only at h
      split at h
      · rename_i h'
        cases h
        rw [ih h']
        rfl
      · split at h
        · cases h
          rfl
        · cases h

/-- Octets without a blank hold no marker, so the one before them is the last. -/
theorem splitDuration_marker (before : Octets) (hafter : 32 ∉ after) :
    splitDuration (before ++ 32 :: 68 :: after) = some (before, after) := by
  induction before with
  | nil =>
      -- Behind the marker no other is found, so this one counts.
      have hnone : splitDuration (68 :: after) = none := by
        rw [← List.append_nil (68 :: after)]
        exact splitDuration_append (by simpa using hafter) rfl
      rw [List.nil_append, splitDuration, hnone]
  | cons b before ih => exact splitDuration_cons b ih

/-- Octets that may follow a blank without making a marker of it. -/
structure IsWord (word : Octets) : Prop where
  nonempty : word ≠ []
  no_blank : 32 ∉ word
  head : word.head? ≠ some 68

theorem splitDuration_blank (hword : IsWord word) (h : splitDuration rest = none) :
    splitDuration ([32] ++ (word ++ rest)) = none := by
  have hnone := splitDuration_append hword.no_blank h
  obtain ⟨hnonempty, -, hhead⟩ := hword
  cases word with
  | nil => exact (hnonempty rfl).elim
  | cons b word =>
      change splitDuration (32 :: b :: (word ++ rest)) = none
      rw [splitDuration]
      rw [List.cons_append] at hnone
      rw [hnone]
      have hb : b ≠ 68 := by simpa using hhead
      simp [hb]

end Splitting

theorem isWord_of_digits {digits : List Char} (hsome : digits ≠ [])
    (hdigits : ∀ c ∈ digits, c.isDigit) : IsWord (ofText digits) := by
  have hrange : ∀ b ∈ ofText digits, 48 ≤ b.toNat ∧ b.toNat ≤ 57 := by
    rw [ofText_eq_map (isAscii_of_isDigit hdigits), List.forall_mem_map]
    intro c hc
    have := toNat_of_isDigit (hdigits c hc)
    rwa [UInt8.toNat_ofNat_of_lt' (show c.toNat < 256 by omega)]
  refine ⟨?_, ?_, ?_⟩
  · rw [ofText_eq_map (isAscii_of_isDigit hdigits)]
    simpa using hsome
  · intro hblank
    exact absurd (hrange _ hblank).1 (by decide)
  · intro hhead
    exact absurd (hrange _ (List.mem_of_head? hhead)).2 (by decide)

theorem isWord_padded (n : Nat) : IsWord (ofText (Decimal.padded 2 n)) := by
  apply isWord_of_digits
  · simp [Decimal.padded, Decimal.numeral]
  · exact fun _ => Decimal.isDigit_of_mem_padded

theorem isWord_abbreviation (day : Weekday) : IsWord (ofText day.abbreviation) := by
  cases day <;> exact ⟨by decide, by decide, by decide⟩

theorem splitDuration_timeWritten {text : List Char} {hour minute : Nat}
    (h : TimeWritten text hour minute) : splitDuration (ofText text) = none := by
  cases h with
  | omitted => rfl
  | written hhour hminute =>
      rw [ofText_timeWritten]
      refine splitDuration_blank (isWord_padded hour) (splitDuration_append (by decide) ?_)
      rw [← List.append_nil (ofText (Decimal.padded 2 minute))]
      exact splitDuration_append (isWord_padded minute).no_blank rfl

theorem splitDuration_targetWritten {period : Period} {text : List Char} {target : CivilTime}
    (h : TargetWritten period text target) : splitDuration (ofText text) = none := by
  cases h with
  | yearOmitted | monthOmitted | hourOmitted => rfl
  | @year month day _ _ dayText timeText hmonth hday htime =>
      rw [ofText_blank, ofText_append, ofText_append]
      apply splitDuration_blank (isWord_padded (month + 1))
      cases hday with
      | omitted => exact splitDuration_timeWritten htime
      | written hpos hday =>
          rw [ofText_dash, List.append_assoc]
          exact splitDuration_append (by decide)
            (splitDuration_append (isWord_padded day).no_blank (splitDuration_timeWritten htime))
  | @month day _ _ timeText hpos hday htime =>
      rw [ofText_blank, ofText_append]
      exact splitDuration_blank (isWord_padded day) (splitDuration_timeWritten htime)
  | @week day _ _ timeText htime =>
      rw [ofText_blank, ofText_append]
      exact splitDuration_blank (isWord_abbreviation day) (splitDuration_timeWritten htime)
  | day htime => exact splitDuration_timeWritten htime
  | @hour minute hminute =>
      rw [ofText_blank, ← List.append_nil (ofText (Decimal.padded 2 minute))]
      exact splitDuration_blank (isWord_padded minute) rfl

theorem splitDuration_alarm {slot : AlarmSlot} {count : Nat} {period : Period} {text : List Char}
    {target : CivilTime} (h : TargetWritten period text target) :
    splitDuration (ofText (Decimal.padded 2 slot ++
      ' ' :: (Decimal.padded 2 count ++ period.letter :: text))) = none := by
  rw [ofText_alarm]
  refine splitDuration_append (isWord_padded slot).no_blank (splitDuration_blank
    (isWord_padded count) (splitDuration_append ?_ (splitDuration_targetWritten h)))
  cases period <;> decide

/-! ### Numbers -/

theorem digitOf_of_isDigit {c : Char} (h : c.isDigit) :
    digitOf (UInt8.ofNat c.toNat) = .ok (c.toNat - '0'.toNat) := by
  have := toNat_of_isDigit h
  refine digitOf_eq_ok.2 ⟨?_, ?_⟩
  · show c.toNat - 48 < 10
    omega
  · rw [ofDigit, show 48 + (c.toNat - '0'.toNat) = c.toNat from Nat.add_sub_cancel' this.1]

theorem foldlM_digits {digits : List Char} (hdigits : ∀ c ∈ digits, c.isDigit) (start : Nat) :
    (ofText digits).foldlM (fun n b => do return n * 10 + (← digitOf b)) start =
      .ok (Nat.ofDigitChars 10 digits start) := by
  induction digits generalizing start with
  | nil => rfl
  | cons c digits ih =>
      rw [List.forall_mem_cons] at hdigits
      have hc := toNat_of_isDigit hdigits.1
      rw [ofText_cons_of_ascii (by omega), List.foldlM_cons, digitOf_of_isDigit hdigits.1, ok_bind,
        Nat.ofDigitChars_cons, Nat.mul_comm 10 start]
      exact ih hdigits.2 _

theorem digits_of_foldlM {octets : Octets} {start n : Nat}
    (h : octets.foldlM (fun n b => do return n * 10 + (← digitOf b)) start = .ok n) :
    ∃ digits, octets = ofText digits ∧ ∀ c ∈ digits, c.isDigit := by
  induction octets generalizing start with
  | nil => exact ⟨[], rfl, nofun⟩
  | cons b octets ih =>
      rw [List.foldlM_cons, bind_eq_ok] at h
      obtain ⟨_, hb, h⟩ := h
      obtain ⟨d, hread, -⟩ := bind_eq_ok.1 hb
      obtain ⟨hd, rfl⟩ := digitOf_eq_ok.1 hread
      obtain ⟨digits, rfl, hdigits⟩ := ih h
      have hc := Nat.toNat_digitChar_of_lt_ten hd
      refine ⟨d.digitChar :: digits, ?_, List.forall_mem_cons.2 ⟨by simp [hd], hdigits⟩⟩
      rw [ofText_cons_of_ascii (by omega), hc, ofDigit]

theorem decimal_eq_ok {octets : Octets} {n : Nat} : decimal octets = .ok n ↔
    ∃ digits, octets = ofText digits ∧ digits ≠ [] ∧ digits.length ≤ 4 ∧
      (∀ c ∈ digits, c.isDigit) ∧ n = Nat.ofDigitChars 10 digits 0 := by
  unfold decimal
  constructor
  · intro h
    split at h
    · cases h
    · rename_i hlength
      obtain ⟨digits, rfl, hdigits⟩ := digits_of_foldlM h
      rw [foldlM_digits hdigits] at h
      cases h
      rw [length_ofText (isAscii_of_isDigit hdigits)] at hlength
      simp only [Bool.or_eq_true, decide_eq_true_eq, not_or] at hlength
      refine ⟨digits, rfl, ?_, by omega, hdigits, rfl⟩
      rintro rfl
      exact hlength.1 rfl
  · rintro ⟨digits, rfl, hsome, hfour, hdigits, rfl⟩
    have hlength := length_ofText (isAscii_of_isDigit hdigits)
    have hpos := List.length_pos_iff.2 hsome
    rw [if_neg]
    · exact foldlM_digits hdigits 0
    · simp only [Bool.or_eq_true, decide_eq_true_eq, List.isEmpty_iff_length_eq_zero]
      omega

theorem ofDigitChars_lt {digits : List Char} (hdigits : ∀ c ∈ digits, c.isDigit) :
    Nat.ofDigitChars 10 digits 0 < 10 ^ digits.length := by
  induction digits with
  | nil => exact Nat.one_pos
  | cons c digits ih =>
      rw [List.forall_mem_cons] at hdigits
      have hc := toNat_of_isDigit hdigits.1
      have hlt := ih hdigits.2
      have hdigit : c.toNat - '0'.toNat ≤ 9 := by
        show c.toNat - 48 ≤ 9
        omega
      rw [Nat.ofDigitChars_cons, Nat.mul_zero, Nat.zero_add, Nat.ofDigitChars_eq_ofDigitChars_zero,
        List.length_cons, Nat.pow_succ]
      calc 10 ^ digits.length * (c.toNat - '0'.toNat) + Nat.ofDigitChars 10 digits 0
          < 10 ^ digits.length * (c.toNat - '0'.toNat) + 10 ^ digits.length :=
            Nat.add_lt_add_left hlt _
        _ ≤ 10 ^ digits.length * 9 + 10 ^ digits.length :=
            Nat.add_le_add_right (Nat.mul_le_mul_left _ hdigit) _
        _ = 10 ^ digits.length * 10 := by omega

/-- Four digits do not go past the longest duration. -/
theorem ofDigitChars_le_maxMinutes {digits : List Char} (hfour : digits.length ≤ 4)
    (hdigits : ∀ c ∈ digits, c.isDigit) :
    Nat.ofDigitChars 10 digits 0 ≤ Schedule.maxMinutes := by
  have hlt := ofDigitChars_lt hdigits
  have hpow : 10 ^ digits.length ≤ 10 ^ 4 := Nat.pow_le_pow_right (by decide) hfour
  exact Nat.le_of_lt_succ (Nat.lt_of_lt_of_le hlt hpow)

/-! ### The duration of a line -/

theorem ofText_duration (text digits : List Char) :
    ofText (text ++ ' ' :: 'D' :: digits) = ofText text ++ 32 :: 68 :: ofText digits := by
  rw [ofText_append, ofText_blank, ofText_cons_of_ascii (by decide)]
  rfl

theorem separate_of_none {octets : Octets} (h : splitDuration octets = none) :
    Request.separate .setAlarm octets = .ok (octets, 0) := by
  unfold Request.separate
  rw [h]
  rfl

theorem separate_of_some {octets before after : Octets}
    (h : splitDuration octets = some (before, after)) : Request.separate .setAlarm octets =
      (do return (before, ← decimal after) : Except DecodeFault (Octets × Nat)) := by
  unfold Request.separate
  rw [h]

theorem clamped_eq {period : Period} {target : CivilTime} {count minutes : Nat} (hpos : 1 ≤ count)
    (hcount : count ≤ Schedule.maxCount) (hminutes : minutes ≤ Schedule.maxMinutes) :
    Schedule.clamped period target count minutes =
      ⟨period, target, count, if minutes = 0 then Schedule.defaultMinutes else minutes⟩ := by
  rw [Schedule.clamped, Nat.min_eq_left hcount, Nat.max_eq_right hpos, Nat.min_eq_left hminutes]

end TimeSwitch.Wire
