import TimeSwitch.Proofs.Formula.LeftmostFault

/-!
How large the numbers in a fault are. A fault points into the text or right behind it, because the
place where a cursor stands and what is left of the text add up to the same at every step of a scan.
The value of a number that is refused has four digits at most, because digits are no longer counted
in once it is past 255.
-/

namespace TimeSwitch.Formula

/-- A fault as a text of that length may have it: its position is no larger, and its value has no
more than four digits. -/
def Fault.Within (length : Nat) : Fault → Prop
  | .stray _ position | .unexpected _ position | .unclosed position => position ≤ length
  | .numberTooLarge value _ | .noSuchSignal value => value < 10 ^ 4
  | .tooManyNodes => True

theorem Fault.Within.mono {fault : Fault} {length length' : Nat} (h : fault.Within length)
    (hle : length ≤ length') : fault.Within length' := by
  cases fault with
  | stray | unexpected | unclosed => exact Nat.le_trans h hle
  | numberTooLarge | noSuchSignal | tooManyNodes => exact h

/-! ### Numbers -/

theorem runValue_lt {digits : List Char} (hdigits : ∀ c ∈ digits, c.isDigit) {value : Nat}
    (hvalue : value < 10 ^ 4) : (runValue value digits).1 < 10 ^ 4 := by
  induction digits generalizing value with
  | nil => exact hvalue
  | cons c digits ih =>
      obtain ⟨hc, hdigits⟩ := List.forall_mem_cons.1 hdigits
      have hdigit := toNat_of_isDigit hc
      rw [runValue]
      split
      · exact hvalue
      · exact ih hdigits (by omega)

theorem within_signalOfRun {digits : List Char} {fault : Fault} (length : Nat)
    (hdigits : ∀ c ∈ digits, c.isDigit) (h : signalOfRun digits = .error fault) :
    fault.Within length := by
  have hvalue := runValue_lt hdigits (show 0 < 10 ^ 4 by decide)
  unfold signalOfRun at h
  dsimp only at h
  split at h
  · cases h
    exact hvalue
  · split at h <;> cases h
    exact hvalue

/-! ### Positions -/

/-- Where the text of a cursor ends. -/
def Cursor.stop (c : Cursor) : Nat :=
  c.position + c.rest.length

/-- Nothing that stands next is further than that. -/
def Scanned.Within (length : Nat) : Scanned → Prop
  | .lexeme l => l.position ≤ length
  | .fault f => f.Within length
  | .endOfText position => position ≤ length

/-- Nothing that a scan found is further than that. -/
structure Scan.Within (length : Nat) (scan : Scan) : Prop where
  lexemes : ∀ l ∈ scan.lexemes, l.position ≤ length
  text : ∀ position, scan.ending = .ok position → position ≤ length
  fault : ∀ fault, scan.ending = .error fault → fault.Within length

namespace Cursor

theorem stop_skip {c : Cursor} {taken : List Char} (h : taken <+: c.rest) :
    (c.skip taken).stop = c.stop := by
  have hlength := h.length_le
  rw [stop, stop, length_rest_skip, skip]
  dsimp only
  omega

theorem stop_next (c : Cursor) : c.next.2.stop = c.stop ∧ c.next.1.Within c.stop := by
  have hhere : c.skipBlanks.stop = c.stop := stop_skip (List.takeWhile_prefix _)
  rw [← hhere, next]
  dsimp only
  generalize c.skipBlanks = here
  have hle : here.position ≤ here.stop := Nat.le_add_right ..
  obtain ⟨_ | ⟨symbol, rest⟩, position⟩ := here
  · exact ⟨rfl, hle⟩
  · dsimp only
    split
    · have hdigits : ∀ d ∈ (symbol :: rest).takeWhile Char.isDigit, d.isDigit :=
        fun d => List.mem_takeWhile_imp
      have hskip := @stop_skip ⟨symbol :: rest, position⟩ _ (List.takeWhile_prefix Char.isDigit)
      split
      · exact ⟨hskip, hle⟩
      · rename_i fault hfault
        exact ⟨hskip, within_signalOfRun _ hdigits hfault⟩
    · split
      · exact ⟨stop_skip (List.prefix_append [symbol] rest), hle⟩
      · exact ⟨rfl, hle⟩

theorem within_scan (c : Cursor) : c.scan.Within c.stop := by
  induction hlength : c.rest.length using Nat.strongRecOn generalizing c with
  | ind n ih =>
      obtain ⟨hstop, hnext⟩ := c.stop_next
      rw [scan]
      split
      · rename_i position heq
        rw [heq] at hnext
        exact ⟨nofun, fun _ h => Except.ok.inj h ▸ hnext, nofun⟩
      · rename_i fault heq
        rw [heq] at hnext
        exact ⟨nofun, nofun, fun _ h => Except.error.inj h ▸ hnext⟩
      · rename_i l heq
        rw [heq] at hnext
        have hlater := ih _ (hlength ▸ length_rest_next_lt heq) _ rfl
        rw [hstop] at hlater
        exact ⟨List.forall_mem_cons.2 ⟨hnext, hlater.lexemes⟩, hlater.text, hlater.fault⟩

end Cursor

/-! ### Whole texts -/

section

variable {length : Nat} {scan here : Scan} {tokens : List Token} {fault : Fault}

theorem Scan.Within.passed (h : scan.Within length) (hpassed : Passed scan tokens here) :
    here.Within length := by
  obtain ⟨⟨front, -, hlexemes⟩, hending⟩ := hpassed
  refine ⟨fun l hl => h.lexemes l ?_, hending ▸ h.text, hending ▸ h.fault⟩
  rw [hlexemes]
  exact List.mem_append_right front hl

theorem Stuck.within {stage : Stage} (h : Stuck stage here fault) (hhere : here.Within length) :
    fault.Within length := by
  cases h with
  | @refused l rest ending _ _ hfault =>
      have hposition := hhere.lexemes l List.mem_cons_self
      rcases hfault with rfl | rfl <;> exact hposition
  | unfinished _ hfault =>
      have hposition := hhere.text _ rfl
      rcases hfault with rfl | rfl <;> exact hposition
  | scan => exact hhere.fault _ rfl

end

/-- The fault of a text is within the octets of the text. -/
theorem Expression.within_of_parse {text : String} {fault : Fault}
    (h : parse text = .error fault) : fault.Within text.utf8ByteSize := by
  have hscan := (Cursor.start text.toList).within_scan
  have hcomes := Phrase.comes_parse text.toList
  rw [parse_eq_error_iff.1 h] at hcomes
  have hwithin : fault.Within (Cursor.start text.toList).stop := by
    cases hcomes with
    | exhausted => trivial
    | stuck hpassed _ hstuck => exact hstuck.within (hscan.passed hpassed)
  refine hwithin.mono ?_
  show 0 + text.toList.length ≤ text.utf8ByteSize
  rw [Nat.zero_add]
  exact Octets.length_toList_le text

end TimeSwitch.Formula
