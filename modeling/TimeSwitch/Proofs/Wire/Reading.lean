import TimeSwitch.Proofs.Calendar.Existing
import TimeSwitch.Proofs.Sequence
import TimeSwitch.Wire.Decode

/-!
What each reader accepts: which octets have to come next for it to succeed, and with which value.
A reader that succeeds and leaves nothing is said to end; a body is read whole if its reader ends.
-/

namespace TimeSwitch.Wire

open Octets Sequence

/-- From one body to a later one, `octets` have been read. -/
def Body.Reads (body : Body) (octets : Octets) (after : Body) : Prop :=
  body.rest = octets ++ after.rest ∧ after.position = body.position + octets.length

theorem Body.reads_nil {body after : Body} : body.Reads [] after ↔ body = after := by
  obtain ⟨rest, position⟩ := body
  obtain ⟨rest', position'⟩ := after
  simp [Body.Reads, eq_comm]

theorem Body.reads_append {body after : Body} {a b : Octets} :
    body.Reads (a ++ b) after ↔ ∃ middle, body.Reads a middle ∧ middle.Reads b after := by
  constructor
  · rintro ⟨hrest, hposition⟩
    refine ⟨⟨b ++ after.rest, body.position + a.length⟩, ⟨by simp [hrest], rfl⟩, rfl, ?_⟩
    simp [hposition, Nat.add_assoc]
  · rintro ⟨middle, ⟨hrest, hposition⟩, hrest', hposition'⟩
    refine ⟨by simp [hrest, hrest'], ?_⟩
    simp [hposition, hposition', Nat.add_assoc]

theorem Body.exists_reads {body : Body} {a b : Octets} (h : body.rest = a ++ b) :
    ∃ middle, body.Reads a middle ∧ middle.rest = b :=
  ⟨⟨b, body.position + a.length⟩, ⟨h, rfl⟩, rfl⟩

theorem digitOf_eq_ok {b : UInt8} {n : Nat} : digitOf b = .ok n ↔ n < 10 ∧ b = ofDigit n := by
  unfold digitOf
  split
  · rename_i h
    simp only [Bool.and_eq_true, decide_eq_true_eq, UInt8.le_iff_toNat_le] at h
    change 48 ≤ b.toNat ∧ b.toNat ≤ 57 at h
    rw [Except.ok.injEq]
    constructor
    · rintro rfl
      refine ⟨by omega, UInt8.toNat_inj.1 ?_⟩
      rw [toNat_ofDigit (by omega)]
      omega
    · rintro ⟨hn, rfl⟩
      rw [toNat_ofDigit hn]
      omega
  · rename_i h
    simp only [Bool.and_eq_true, decide_eq_true_eq, UInt8.le_iff_toNat_le] at h
    change ¬ (48 ≤ b.toNat ∧ b.toNat ≤ 57) at h
    simp only [reduceCtorEq, false_iff]
    rintro ⟨hn, rfl⟩
    rw [toNat_ofDigit hn] at h
    omega

theorem inRange_eq_ok {low high n m : Nat} :
    inRange low high n = .ok m ↔ n = m ∧ low ≤ m ∧ m ≤ high := by
  unfold inRange
  split <;> simp <;> omega

namespace Reader

variable {α : Type} {body after : Body}

theorem take_eq_ok {n : Nat} {octets : Octets} :
    take n body = .ok octets after ↔ octets.length = n ∧ body.Reads octets after := by
  obtain ⟨rest, position⟩ := body
  obtain ⟨rest', position'⟩ := after
  simp only [take, Body.Reads]
  split
  · rename_i h
    simp only [EStateM.Result.ok.injEq, Body.mk.injEq]
    constructor
    · rintro ⟨rfl, rfl, rfl⟩
      simp [Nat.min_eq_left h]
    · rintro ⟨rfl, rfl, rfl⟩
      simp
  · rename_i h
    simp only [reduceCtorEq, false_iff]
    rintro ⟨rfl, rfl, -⟩
    simp at h

theorem lift_eq_ok {value : Except DecodeFault α} {a : α} :
    lift value body = .ok a after ↔ value = .ok a ∧ after = body := by
  cases value with
  | error fault => simp [lift]
  | ok b => simp [lift, eq_comm]

theorem accept_eq_ok {b : UInt8} {found : Bool} : accept b body = .ok found after ↔
    found = true ∧ body.Reads [b] after ∨
      found = false ∧ body.rest.head? ≠ some b ∧ body = after := by
  obtain ⟨rest, position⟩ := body
  obtain ⟨rest', position'⟩ := after
  cases rest with
  | nil =>
      simp only [accept, Body.Reads, EStateM.Result.ok.injEq]
      grind
  | cons next rest =>
      by_cases h : next = b
      · subst h
        simp only [accept, Body.Reads, beq_self_eq_true, if_true, EStateM.Result.ok.injEq]
        grind
      · simp only [accept, Body.Reads, beq_iff_eq, if_neg h, EStateM.Result.ok.injEq]
        grind

theorem expect_eq_ok {b : UInt8} {u : Unit} :
    expect b body = .ok u after ↔ body.Reads [b] after := by
  unfold expect
  simp only [step_bind_eq_ok, accept_eq_ok]
  constructor
  · rintro ⟨found, middle, ⟨rfl, hreads⟩ | ⟨rfl, -, -⟩, h⟩
    · obtain ⟨-, rfl⟩ := step_pure_eq_ok.1 h
      exact hreads
    · exact (step_throw_eq_ok.1 h).elim
  · intro hreads
    exact ⟨true, after, .inl ⟨rfl, hreads⟩, rfl⟩

theorem digit_eq_ok {low high n : Nat} : digit low high body = .ok n after ↔
    n < 10 ∧ low ≤ n ∧ n ≤ high ∧ body.Reads [ofDigit n] after := by
  unfold digit
  simp only [step_bind_eq_ok, take_eq_ok]
  constructor
  · rintro ⟨octets, middle, ⟨hlength, hreads⟩, h⟩
    obtain ⟨b, rfl⟩ := List.length_eq_one_iff.1 hlength
    simp only [lift_eq_ok, bind_eq_ok, digitOf_eq_ok, inRange_eq_ok] at h
    obtain ⟨⟨_, ⟨hn, rfl⟩, rfl, hlow, hhigh⟩, rfl⟩ := h
    exact ⟨hn, hlow, hhigh, hreads⟩
  · rintro ⟨hn, hlow, hhigh, hreads⟩
    refine ⟨[ofDigit n], after, ⟨rfl, hreads⟩, ?_⟩
    simp only [lift_eq_ok, bind_eq_ok, digitOf_eq_ok, inRange_eq_ok, and_true]
    exact ⟨n, ⟨hn, rfl⟩, rfl, hlow, hhigh⟩

theorem twoDigits_eq_ok {low high n : Nat} : twoDigits low high body = .ok n after ↔
    n < 100 ∧ low ≤ n ∧ n ≤ high ∧ body.Reads (ofText (Decimal.padded 2 n)) after := by
  unfold twoDigits
  simp only [step_bind_eq_ok, take_eq_ok]
  constructor
  · rintro ⟨octets, middle, ⟨hlength, hreads⟩, h⟩
    obtain _ | ⟨b₁, _ | ⟨b₂, _ | ⟨b₃, others⟩⟩⟩ := octets <;> cases hlength
    simp only [lift_eq_ok, bind_eq_ok, digitOf_eq_ok, inRange_eq_ok] at h
    obtain ⟨⟨tens, ⟨htens, rfl⟩, units, ⟨hunits, rfl⟩, rfl, hlow, hhigh⟩, rfl⟩ := h
    refine ⟨by omega, hlow, hhigh, ?_⟩
    rw [ofText_padded_two (by omega), show (tens * 10 + units) / 10 = tens by omega,
      show (tens * 10 + units) % 10 = units by omega]
    exact hreads
  · rintro ⟨hn, hlow, hhigh, hreads⟩
    rw [ofText_padded_two hn] at hreads
    refine ⟨_, after, ⟨rfl, hreads⟩, ?_⟩
    simp only [lift_eq_ok, bind_eq_ok, digitOf_eq_ok, inRange_eq_ok, and_true]
    exact ⟨n / 10, ⟨by omega, rfl⟩, n % 10, ⟨by omega, rfl⟩, by omega, hlow, hhigh⟩

theorem weekday_eq_ok {day : Weekday} :
    weekday body = .ok day after ↔ body.Reads (ofText day.abbreviation) after := by
  unfold weekday
  simp only [step_bind_eq_ok, take_eq_ok]
  constructor
  · rintro ⟨octets, middle, ⟨hlength, hreads⟩, h⟩
    cases hfound : Weekday.ofAbbreviation? (toText octets) with
    | none =>
        rw [hfound] at h
        exact (step_throw_eq_ok.1 h).elim
    | some found =>
        rw [hfound] at h
        obtain ⟨rfl, rfl⟩ := step_pure_eq_ok.1 h
        have hname := List.find?_some hfound
        rw [beq_iff_eq] at hname
        rwa [← (toText_eq_iff (isAscii_abbreviation found)).1 hname.symm]
  · intro hreads
    refine ⟨_, after, ⟨?_, hreads⟩, ?_⟩
    · rw [length_ofText (isAscii_abbreviation day), Weekday.length_abbreviation]
    · rw [toText_ofText (isAscii_abbreviation day), Weekday.ofAbbreviation?_abbreviation]
      exact step_pure_eq_ok.2 ⟨rfl, rfl⟩

theorem channel_eq_ok {c : Channel} :
    channel body = .ok c after ↔ body.Reads (ofText (Decimal.numeral c)) after := by
  have hc := c.isLt
  rw [ofText_numeral (by omega)]
  unfold channel
  simp only [step_bind_eq_ok, digit_eq_ok]
  constructor
  · rintro ⟨n, middle, ⟨-, -, hn, hreads⟩, h⟩
    rw [Channel.ofNat?, dif_pos (by omega)] at h
    obtain ⟨hn, rfl⟩ := step_pure_eq_ok.1 h
    rwa [← hn]
  · intro hreads
    refine ⟨c, after, ⟨by omega, by omega, by omega, hreads⟩, ?_⟩
    rw [Channel.ofNat?, dif_pos hc]
    exact step_pure_eq_ok.2 ⟨rfl, rfl⟩

theorem alarmSlot_eq_ok {slot : AlarmSlot} :
    alarmSlot body = .ok slot after ↔ body.Reads (ofText (Decimal.padded 2 slot)) after := by
  have hslot := slot.isLt
  unfold alarmSlot
  simp only [step_bind_eq_ok, twoDigits_eq_ok]
  constructor
  · rintro ⟨n, middle, ⟨-, -, hn, hreads⟩, h⟩
    rw [AlarmSlot.ofNat?, dif_pos (by omega)] at h
    obtain ⟨hn, rfl⟩ := step_pure_eq_ok.1 h
    rwa [← hn]
  · intro hreads
    refine ⟨slot, after, ⟨by omega, by omega, by omega, hreads⟩, ?_⟩
    rw [AlarmSlot.ofNat?_val]
    exact step_pure_eq_ok.2 ⟨rfl, rfl⟩

theorem isAscii_letter (period : Period) : IsAscii [period.letter] := by
  cases period <;> decide

theorem period_eq_ok {p : Period} :
    period body = .ok p after ↔ body.Reads (ofText [p.letter]) after := by
  unfold period
  simp only [step_bind_eq_ok, take_eq_ok]
  constructor
  · rintro ⟨octets, middle, ⟨hlength, hreads⟩, h⟩
    obtain ⟨b, rfl⟩ := List.length_eq_one_iff.1 hlength
    cases hfound : (toText [b]).head?.bind Period.ofLetter? with
    | none =>
        rw [hfound] at h
        exact (step_throw_eq_ok.1 h).elim
    | some found =>
        rw [hfound] at h
        obtain ⟨rfl, rfl⟩ := step_pure_eq_ok.1 h
        have hletter := List.find?_some (show Period.ofLetter? _ = some found from hfound)
        rw [beq_iff_eq] at hletter
        have htext : toText [b] = [found.letter] := by rw [hletter]; rfl
        rwa [← (toText_eq_iff (isAscii_letter found)).1 htext]
  · intro hreads
    refine ⟨_, after, ⟨?_, hreads⟩, ?_⟩
    · rw [length_ofText (isAscii_letter p), List.length_singleton]
    · rw [toText_ofText (isAscii_letter p), List.head?_cons, Option.bind_some,
        Period.ofLetter?_letter]
      exact step_pure_eq_ok.2 ⟨rfl, rfl⟩

/-! ### Reading to the end -/

/-- The reader succeeds and leaves nothing. -/
def Ends (r : Reader α) (body : Body) (a : α) : Prop :=
  ∃ after, r body = .ok a after ∧ after.rest = []

variable {β : Type} {x r : Reader α} {f : α → Reader β} {a a₀ : α} {b : β}

theorem finish_eq_ok {u : Unit} : finish body = .ok u after ↔ body.rest = [] ∧ body = after := by
  unfold finish
  cases body.rest <;> simp

theorem whole_eq_ok {octets : Octets} : whole r octets = .ok a ↔ r.Ends (.start octets) a := by
  have hwhole : whole r octets = .ok a ↔ ∃ after,
      (do let a ← r; finish; return a : Reader α) (Body.start octets) = .ok a after := by
    unfold whole
    generalize (do let a ← r; finish; return a : Reader α) (Body.start octets) = result
    cases result <;> simp
  rw [hwhole]
  simp only [step_bind_eq_ok, step_pure_eq_ok]
  constructor
  · rintro ⟨after, found, middle, hr, ⟨⟩, last, hfinish, rfl, rfl⟩
    obtain ⟨hrest, rfl⟩ := finish_eq_ok.1 hfinish
    exact ⟨middle, hr, hrest⟩
  · rintro ⟨after, hr, hrest⟩
    exact ⟨after, a, after, hr, (), after, finish_eq_ok.2 ⟨hrest, rfl⟩, rfl, rfl⟩

/-- A reader that reads the octets of its value, and nothing else. -/
theorem ends_of_reads {octets : α → Octets}
    (h : ∀ a after, x body = .ok a after ↔ body.Reads (octets a) after) :
    x.Ends body a ↔ body.rest = octets a := by
  simp only [Ends, h]
  constructor
  · rintro ⟨after, hreads, hrest⟩
    rw [hreads.1, hrest, List.append_nil]
  · intro hrest
    rw [← List.append_nil (octets a)] at hrest
    exact Body.exists_reads hrest

theorem ends_bind :
    (x >>= f).Ends body b ↔ ∃ a middle, x body = .ok a middle ∧ (f a).Ends middle b := by
  simp only [Ends, step_bind_eq_ok]
  grind

/-- What stands in front is read, and the rest is left to what follows. -/
theorem ends_next {octets tail : Octets} (hrest : body.rest = octets ++ tail)
    (hx : ∀ middle, body.Reads octets middle → x body = .ok a middle)
    (h : ∀ middle, middle.rest = tail → (f a).Ends middle b) : (x >>= f).Ends body b := by
  obtain ⟨middle, hreads, hrest⟩ := Body.exists_reads hrest
  exact ends_bind.2 ⟨a, middle, hx middle hreads, h middle hrest⟩

theorem ends_pure : (pure a₀ : Reader α).Ends body a ↔ a₀ = a ∧ body.rest = [] := by
  simp only [Ends, step_pure_eq_ok]
  grind

theorem ends_throw {fault : DecodeFault} : (throw fault : Reader α).Ends body a ↔ False := by
  simp [Ends, step_throw_eq_ok]

theorem ends_map {f : α → β} :
    (x >>= fun a => pure (f a) : Reader β).Ends body b ↔ ∃ a, x.Ends body a ∧ f a = b := by
  simp only [ends_bind, ends_pure]
  constructor
  · rintro ⟨a, after, h, rfl, hrest⟩
    exact ⟨a, ⟨after, h, hrest⟩, rfl⟩
  · rintro ⟨a, ⟨after, h, hrest⟩, rfl⟩
    exact ⟨a, after, h, rfl, hrest⟩

theorem ends_rest {f : Octets → Reader β} :
    (rest >>= f).Ends body b ↔ (f body.rest).Ends body b := Iff.rfl

/-- Something that may be left out, known by its first octet. -/
theorem optional_eq_ok {octet : UInt8} {after : Body} :
    (accept octet >>= fun found => if found = true then r else pure a₀) body = .ok a after ↔
      (a₀ = a ∧ body.rest.head? ≠ some octet ∧ body = after) ∨
        ∃ middle, body.Reads [octet] middle ∧ r middle = .ok a after := by
  simp only [step_bind_eq_ok, accept_eq_ok]
  constructor
  · rintro ⟨found, middle, ⟨rfl, hreads⟩ | ⟨rfl, hother, rfl⟩, h⟩
    · exact .inr ⟨middle, hreads, h⟩
    · obtain ⟨rfl, rfl⟩ := step_pure_eq_ok.1 h
      exact .inl ⟨rfl, hother, rfl⟩
  · rintro (⟨rfl, hother, rfl⟩ | ⟨middle, hreads, h⟩)
    · exact ⟨false, body, .inr ⟨rfl, hother, rfl⟩, rfl⟩
    · exact ⟨true, middle, .inl ⟨rfl, hreads⟩, h⟩

theorem ends_optional {octet : UInt8} :
    (accept octet >>= fun found => if found = true then r else pure a₀).Ends body a ↔
      a₀ = a ∧ body.rest = [] ∨ ∃ middle, body.Reads [octet] middle ∧ r.Ends middle a := by
  simp only [Ends, optional_eq_ok]
  constructor
  · rintro ⟨after, ⟨rfl, -, rfl⟩ | ⟨middle, hreads, h⟩, hrest⟩
    · exact .inl ⟨rfl, hrest⟩
    · exact .inr ⟨middle, hreads, after, h, hrest⟩
  · rintro (⟨rfl, hrest⟩ | ⟨middle, hreads, after, h, hrest⟩)
    · exact ⟨body, .inl ⟨rfl, by simp [hrest], rfl⟩, hrest⟩
    · exact ⟨after, .inr ⟨middle, hreads, h⟩, hrest⟩

end Reader

end TimeSwitch.Wire
