/-!
A count of days laid over spans that follow each other, such as the years of a century or the
months of a year. `locate` finds the span that a day falls in; `locate_eq_some_iff` says that
this undoes adding up the spans before it.
-/

namespace TimeSwitch.Calendar

/-- The days of all spans. -/
def totalDays : List Nat → Nat
  | [] => 0
  | span :: spans => span + totalDays spans

/-- The days in the first `n` spans. -/
def daysBefore (spans : List Nat) (n : Nat) : Nat :=
  totalDays (spans.take n)

/-- The span that holds day `day`, counted from zero, and the days of that span before it. -/
def locate : List Nat → Nat → Option (Nat × Nat)
  | [], _ => none
  | span :: spans, day =>
    if day < span then some (0, day)
    else (locate spans (day - span)).map fun (n, rest) => (n + 1, rest)

@[simp] theorem totalDays_nil : totalDays [] = 0 := rfl

@[simp] theorem totalDays_cons (span : Nat) (spans : List Nat) :
    totalDays (span :: spans) = span + totalDays spans := rfl

@[simp] theorem daysBefore_zero (spans : List Nat) : daysBefore spans 0 = 0 := by
  simp [daysBefore]

@[simp] theorem daysBefore_cons_succ (span : Nat) (spans : List Nat) (n : Nat) :
    daysBefore (span :: spans) (n + 1) = span + daysBefore spans n := by
  simp [daysBefore]

/-- The span found is the one whose days begin no later than `day` and end after it. -/
theorem locate_eq_some_iff {spans : List Nat} {day n rest : Nat} :
    locate spans day = some (n, rest) ↔
      ∃ h : n < spans.length, rest < spans[n] ∧ daysBefore spans n + rest = day := by
  induction spans generalizing day n with
  | nil => simp [locate]
  | cons span spans ih =>
    by_cases h : day < span
    · simp only [locate, if_pos h, Option.some.injEq, Prod.mk.injEq]
      constructor
      · rintro ⟨rfl, rfl⟩
        exact ⟨by simp, by simpa using h, by simp⟩
      · rintro ⟨hn, hr, hd⟩
        cases n with
        | zero => simpa using hd.symm
        | succ n => simp only [daysBefore_cons_succ] at hd; omega
    · simp only [locate, if_neg h, Option.map_eq_some_iff, Prod.mk.injEq]
      constructor
      · rintro ⟨⟨m, r⟩, hm, rfl, rfl⟩
        obtain ⟨hl, hr, hd⟩ := ih.1 hm
        exact ⟨by simpa using hl, by simpa using hr, by simp; omega⟩
      · rintro ⟨hn, hr, hd⟩
        cases n with
        | zero => simp at hr hd; omega
        | succ n =>
          simp only [daysBefore_cons_succ] at hd
          exact ⟨(n, rest), ih.2 ⟨by simpa using hn, by simpa using hr, by omega⟩, rfl, rfl⟩

/-- Only a day after the last span is not found. -/
theorem locate_eq_none_iff {spans : List Nat} {day : Nat} :
    locate spans day = none ↔ totalDays spans ≤ day := by
  induction spans generalizing day with
  | nil => simp [locate]
  | cons span spans ih =>
    by_cases h : day < span
    · simp only [locate, if_pos h, totalDays_cons]
      constructor
      · intro h'; cases h'
      · intro h'; omega
    · simp only [locate, if_neg h, Option.map_eq_none_iff, ih, totalDays_cons]
      omega

end TimeSwitch.Calendar
