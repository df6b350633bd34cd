import TimeSwitch.Proofs.Wire.Framing
import TimeSwitch.Wire.Decode

/-!
Framing keeps to its rules. A line is reported once or not at all: a message where it ends, any
other line where it first goes wrong, and what a framer holds never outgrows a line. Feeding until
something is reported stops at the first thing that feeding on would report.
-/

namespace TimeSwitch.Wire

/-- A line that goes wrong at a place with nothing wrong before it: at an octet that no line holds,
or at the first octet that the line has no room for. -/
inductive WrongAt : Octets → Nat → LineFault → Prop
  | invalid {before after : Octets} {b : UInt8} (hbefore : ∀ c ∈ before, isLineOctet c)
      (hfits : before.length ≤ lineLimit) (hb : b = 0 ∨ 128 ≤ b) :
      WrongAt (before ++ b :: after) before.length .invalidOctet
  | overflow {before after : Octets} {b : UInt8} (hbefore : ∀ c ∈ before, isLineOctet c)
      (hfull : before.length = lineLimit) (hb : b ≠ 0 ∧ b < 128) :
      WrongAt (before ++ b :: after) before.length .overflow

theorem isLineOctet_iff {b : UInt8} (hb : isLineEnd b = false) :
    isLineOctet b = true ↔ b ≠ 0 ∧ b < 128 := by
  simp [isLineOctet, hb]

theorem wrongAt_of_faultAt? {before after : Octets} {b : UInt8} {fault : LineFault}
    (hbefore : RightSoFar before) (hb : isLineEnd b = false)
    (h : faultAt? before.length b = some fault) :
    WrongAt (before ++ b :: after) before.length fault := by
  have hoctets := List.all_eq_true.1 hbefore.2
  have hoctet := isLineOctet_iff hb
  unfold faultAt? at h
  split at h
  · rename_i hbad
    cases h
    refine .invalid hoctets hbefore.1 ?_
    by_cases hzero : b = 0
    · exact .inl hzero
    · refine .inr (UInt8.not_lt.1 fun hlt => ?_)
      rw [hoctet.2 ⟨hzero, hlt⟩] at hbad
      cases hbad
  · rename_i hgood
    split at h
    · rename_i hfull
      cases h
      exact .overflow hoctets hfull (hoctet.1 (by simpa using hgood))
    · cases h

/-- The first fault of a line that is not right to its end. -/
theorem exists_firstFault? {held line : Octets} (hheld : RightSoFar held)
    (h : ¬RightSoFar (held ++ line)) : ∃ before b after fault, line = before ++ b :: after ∧
      RightSoFar (held ++ before) ∧ faultAt? (held ++ before).length b = some fault ∧
      firstFault? held.length line = some ((held ++ before).length, fault) := by
  induction line generalizing held with
  | nil =>
      rw [List.append_nil] at h
      exact absurd hheld h
  | cons b line ih =>
      cases hfault : faultAt? held.length b with
      | some fault =>
          refine ⟨[], b, line, fault, rfl, ?_, ?_, ?_⟩ <;>
            simp [hheld, hfault, firstFault?]
      | none =>
          rw [List.append_cons] at h
          obtain ⟨before, b', after, fault, rfl, hright, hhere, hfirst⟩ :=
            ih (rightSoFar_concat.2 ⟨hheld, hfault⟩) h
          rw [← List.append_cons] at hright hhere hfirst
          rw [List.length_append, List.length_singleton] at hfirst
          refine ⟨b :: before, b', after, fault, rfl, hright, hhere, ?_⟩
          rw [firstFault?, hfault]
          exact hfirst

section Line

variable {line : Octets}

theorem report?_of_isMessage (h : IsMessage line) :
    report? true line = some (line.length, .line line) ∧ report? false line = none := by
  have hnone := @firstFault?_of_rightSoFar [] line (rightSoFar_of_isMessage h)
  refine ⟨if_pos ⟨rfl, h⟩, ?_⟩
  rw [report?, if_neg (by simp)]
  exact congrArg (Option.map _) hnone

theorem report?_of_not_isMessage (hline : ∀ b ∈ line, isLineEnd b = false) (hsome : line ≠ [])
    (h : ¬IsMessage line) : ∃ place fault, WrongAt line place fault ∧
      ∀ ended, report? ended line = some (place, .fault fault) := by
  have hwrong : ¬RightSoFar ([] ++ line) := fun hright =>
    h ⟨List.length_pos_iff.2 hsome, hright.1, List.all_eq_true.1 hright.2⟩
  obtain ⟨before, b, after, fault, rfl, hright, hhere, hfirst⟩ :=
    @exists_firstFault? [] line (by decide) hwrong
  have hb := hline b (List.mem_append_right before List.mem_cons_self)
  refine ⟨before.length, fault, wrongAt_of_faultAt? hright hb hhere, fun ended => ?_⟩
  rw [report?, if_neg fun hended => h hended.2]
  exact congrArg (Option.map _) hfirst

end Line

theorem isMessage_of_mem_reports {start place : Nat} {lines : List Octets} {line : Octets}
    (h : (place, .line line) ∈ reports start lines) : IsMessage line := by
  have hline : line ∈ linesAmong (reports start lines) :=
    List.mem_filterMap.2 ⟨_, h, rfl⟩
  rw [linesAmong_reports] at hline
  simpa using (List.mem_filter.1 hline).2

/-- What decoding goes on with after the line as a whole has been checked. -/
def Request.decodeTagged (tag : UInt8) (body : Octets) : Except DecodeFault Request :=
  match RequestKind.ofTag? tag with
  | none => .error (.unknownTag tag)
  | some kind => do
    let (body, minutes) ← separate kind body
    (Reader.fields minutes kind).whole body

/-- A message passes the checks of the line as a whole. -/
theorem IsMessage.exists_decode_eq {line : Octets} (h : IsMessage line) :
    ∃ tag body, line = tag :: body ∧ Request.decode line = Request.decodeTagged tag body := by
  cases line with
  | nil => exact absurd h.nonempty (by decide)
  | cons tag body =>
      have hall : (tag :: body).all isLineOctet = true := List.all_eq_true.2 h.octets
      refine ⟨tag, body, rfl, ?_⟩
      rw [Request.decode, if_neg (Nat.not_lt.2 h.fits), hall]
      rfl

namespace Framer

/-- What the buffer keeps to: it never outgrows a line, and it is empty while a line is skipped. -/
structure Sound (framer : Framer) : Prop where
  fits : framer.held.length ≤ lineLimit
  empty : framer.phase = .skipping → framer.held = []

theorem sound_start : start.Sound := ⟨Nat.zero_le lineLimit, nofun⟩

theorem sound_discard (framer : Framer) : framer.discard.Sound :=
  ⟨Nat.zero_le lineLimit, fun _ => rfl⟩

theorem sound_feed {framer : Framer} (h : framer.Sound) (b : UInt8) : (framer.feed b).2.Sound := by
  obtain ⟨phase, held⟩ := framer
  cases phase with
  | skipping =>
      obtain rfl : held = [] := h.empty rfl
      rw [feed]
      dsimp only
      split
      · exact sound_start
      · exact h
  | collecting =>
      rw [feed]
      dsimp only
      split
      · split
        · exact h
        · exact sound_start
      · split
        · exact sound_discard ⟨.collecting, held⟩
        · split
          · rename_i hroom
            refine ⟨?_, by rintro ⟨⟩⟩
            rw [List.length_append, List.length_singleton]
            exact hroom
          · exact sound_discard ⟨.collecting, held⟩

theorem sound_feedAll {framer : Framer} (h : framer.Sound) (offset : Nat) (octets : Octets) :
    (framer.feedAll offset octets).2.Sound := by
  induction octets generalizing offset framer with
  | nil => exact h
  | cons b octets ih => exact ih (sound_feed h b) (offset + 1)

theorem held_within (line : Octets) :
    (within line).held = if RightSoFar line then line else [] := by
  by_cases hright : RightSoFar line
  · rw [within_of_right hright, if_pos hright]
  · rw [within_of_wrong hright, if_neg hright]

theorem feedUntilEvent_eq (offset : Nat) (octets : Octets) (framer : Framer) :
    match (framer.feedAll offset octets).1 with
    | [] => framer.feedUntilEvent octets = (none, (framer.feedAll offset octets).2)
    | (place, event) :: _ => offset ≤ place ∧ framer.feedUntilEvent octets =
        (some event, (framer.feedAll offset (octets.take (place + 1 - offset))).2) := by
  induction octets generalizing offset framer with
  | nil => rfl
  | cons b octets ih =>
      rw [feedAll_cons, feedUntilEvent]
      rcases hfeed : framer.feed b with ⟨_ | event, next⟩
      · have hlater := ih (offset + 1) next
        dsimp only [Option.map_none, Option.toList_none, List.nil_append]
        cases hevents : (next.feedAll (offset + 1) octets).1 with
        | nil =>
            rw [hevents] at hlater
            exact hlater
        | cons first more =>
            rw [hevents] at hlater
            obtain ⟨hplace, huntil⟩ := hlater
            refine ⟨by omega, ?_⟩
            have htake : first.1 + 1 - offset = (first.1 + 1 - (offset + 1)) + 1 := by omega
            rw [huntil, htake, List.take_succ_cons, feedAll_cons, hfeed]
      · refine ⟨Nat.le_refl offset, ?_⟩
        rw [Nat.add_sub_cancel_left]
        simp [feedAll, hfeed]

/-- A stream is reported line by line, between its line ends: nothing of an empty line, a message
where it ends, and any other line once, at its first fault, whatever the lines around it are. -/
theorem framing_reports_lines (stream : Octets) :
    let lines := stream.splitOnP isLineEnd
    let events := (start.feedAll 0 stream).1
    let framer := (start.feedAll 0 stream).2
    events = reports 0 lines ∧
      (∀ line ∈ lines, (line = [] → ∀ ended, report? ended line = none) ∧
        (IsMessage line →
          report? true line = some (line.length, .line line) ∧ report? false line = none) ∧
        (line ≠ [] → ¬IsMessage line → ∃ place fault, WrongAt line place fault ∧
          ∀ ended, report? ended line = some (place, .fault fault))) ∧
      (framer.held.length ≤ lineLimit ∧ (framer.phase = .skipping → framer.held = []) ∧
        framer.held = if RightSoFar (lines.getLastD []) then lines.getLastD [] else []) ∧
      (∀ place line, (place, .line line) ∈ events → IsMessage line ∧
        ∃ tag body, line = tag :: body ∧
          Request.decode line = Request.decodeTagged tag body) ∧
      ∀ octets, match (framer.feedAll 0 octets).1 with
        | [] => framer.feedUntilEvent octets = (none, (framer.feedAll 0 octets).2)
        | (place, event) :: _ => framer.feedUntilEvent octets =
            (some event, (framer.feedAll 0 (octets.take (place + 1))).2) := by
  intro lines events framer
  have hfeed := feedAll_start 0 stream
  have hevents : events = reports 0 lines := congrArg Prod.fst hfeed
  have hframer : framer = within (lines.getLastD []) := congrArg Prod.snd hfeed
  have hsound : framer.Sound := sound_feedAll sound_start 0 stream
  refine ⟨hevents, fun line hmem => ⟨?_, report?_of_isMessage, ?_⟩, ⟨?_, ?_, ?_⟩, ?_, ?_⟩
  · rintro rfl ended
    cases ended <;> rfl
  · exact report?_of_not_isMessage (isLineEnd_of_mem_splitOnP hmem)
  · exact hsound.fits
  · exact hsound.empty
  · rw [hframer, held_within]
  · intro place line hmem
    rw [hevents] at hmem
    have hmessage := isMessage_of_mem_reports hmem
    exact ⟨hmessage, hmessage.exists_decode_eq⟩
  · intro octets
    have huntil := feedUntilEvent_eq 0 octets framer
    split at huntil
    · exact huntil
    · exact huntil.2

/-- Thirty-two octets make a message, and a thirty-third is one too many or is wrong in itself. -/
example :
    report? true (List.replicate 32 69) = some (32, .line (List.replicate 32 69)) ∧
      report? true (List.replicate 33 69) = some (32, .fault .overflow) ∧
      report? true (List.replicate 32 69 ++ [200]) = some (32, .fault .invalidOctet) := by
  decide

end Framer

end TimeSwitch.Wire
