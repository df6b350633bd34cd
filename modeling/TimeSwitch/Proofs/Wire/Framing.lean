import TimeSwitch.Proofs.Wire.Written

/-!
What framing reports of a stream. The stream is cut at its line ends, and each line is reported by
itself: as a message at its end, or at its first fault. Where a framer stands is told by the
octets of the unfinished line alone.
-/

namespace TimeSwitch.Wire

instance (line : Octets) : Decidable (IsMessage line) :=
  decidable_of_iff (1 ≤ line.length ∧ line.length ≤ lineLimit ∧ line.all isLineOctet = true)
    ⟨fun h => ⟨h.1, h.2.1, List.all_eq_true.1 h.2.2⟩,
      fun h => ⟨h.nonempty, h.fits, List.all_eq_true.2 h.octets⟩⟩

/-- The messages of a stream. What follows its last line end is not a line yet. -/
def messagesOf (stream : Octets) : List Octets :=
  (stream.splitOnP isLineEnd).dropLast.filter (IsMessage ·)

def LineEvent.line? : LineEvent → Option Octets
  | .line octets => some octets
  | .fault _ => none

/-- The lines among what the framing of a stream reports. -/
def linesAmong (events : List (Nat × LineEvent)) : List Octets :=
  events.filterMap fun event => event.2.line?

@[simp] theorem linesAmong_append (a b : List (Nat × LineEvent)) :
    linesAmong (a ++ b) = linesAmong a ++ linesAmong b :=
  List.filterMap_append

/-! ### The lines of a stream -/

/-- A stream is a line that has not ended, or a line with its end and a stream after it. -/
@[elab_as_elim]
theorem stream_induction {motive : Octets → Prop}
    (last : ∀ line : Octets, (∀ b ∈ line, isLineEnd b = false) → motive line)
    (line : ∀ (line : Octets) (b : UInt8) (rest : Octets), (∀ b ∈ line, isLineEnd b = false) →
      isLineEnd b = true → motive rest → motive (line ++ b :: rest))
    (stream : Octets) : motive stream := by
  induction hn : stream.length using Nat.strongRecOn generalizing stream with
  | ind n ih =>
      cases hfind : stream.find? isLineEnd with
      | none => exact last stream (by simpa using hfind)
      | some b =>
          obtain ⟨hb, before, rest, rfl, hbefore⟩ := List.find?_eq_some_iff_append.1 hfind
          rw [List.length_append, List.length_cons] at hn
          exact line before b rest (by simpa using hbefore) hb (ih rest.length (by omega) rest rfl)

theorem isLineEnd_of_mem_splitOnP {stream line : Octets} (hline : line ∈ stream.splitOnP isLineEnd) :
    ∀ b ∈ line, isLineEnd b = false := by
  induction stream using stream_induction with
  | last only honly =>
      rw [List.splitOnP_eq_singleton honly, List.mem_singleton] at hline
      exact hline ▸ honly
  | line first b rest hfirst hb ih =>
      rw [List.splitOnP_append_cons_of_forall_mem hfirst b hb, List.mem_cons] at hline
      rcases hline with rfl | hline
      · exact hfirst
      · exact ih hline

/-! ### Lines by themselves -/

/-- What is wrong with an octet at that place of a line, if nothing is wrong before it. -/
def faultAt? (place : Nat) (b : UInt8) : Option LineFault :=
  if !isLineOctet b then some .invalidOctet
  else if place = lineLimit then some .overflow
  else none

/-- The first place where a line is wrong. Its first octet has the place given. -/
def firstFault? (place : Nat) : Octets → Option (Nat × LineFault)
  | [] => none
  | b :: line =>
    match faultAt? place b with
    | some fault => some (place, fault)
    | none => firstFault? (place + 1) line

/-- What is reported of a line, and at which place: a message is reported where it ends, any other
line at its first fault. -/
def report? (ended : Bool) (line : Octets) : Option (Nat × LineEvent) :=
  if ended = true ∧ IsMessage line then some (line.length, .line line)
  else (firstFault? 0 line).map fun (place, fault) => (place, .fault fault)

/-- What is reported of the lines of a stream, of which the first begins at `start` and only the
last has not ended. -/
def reports (start : Nat) : List Octets → List (Nat × LineEvent)
  | [] => []
  | line :: lines =>
    ((report? (!lines.isEmpty) line).map fun (place, event) => (start + place, event)).toList ++
      reports (start + line.length + 1) lines

/-- The octets of a line in which nothing has gone wrong yet. -/
def RightSoFar (held : Octets) : Prop :=
  held.length ≤ lineLimit ∧ held.all isLineOctet = true

instance (held : Octets) : Decidable (RightSoFar held) :=
  inferInstanceAs (Decidable (_ ∧ _))

theorem rightSoFar_concat {held : Octets} {b : UInt8} :
    RightSoFar (held ++ [b]) ↔ RightSoFar held ∧ faultAt? held.length b = none := by
  simp only [RightSoFar, faultAt?, List.length_append, List.length_singleton, List.all_append,
    List.all_cons, List.all_nil, Bool.and_true, Bool.and_eq_true]
  cases isLineOctet b with
  | false => simp
  | true =>
      by_cases hfull : held.length = lineLimit
      · simp only [Bool.not_true, Bool.false_eq_true, if_false, if_pos hfull, reduceCtorEq,
          and_false, iff_false]
        omega
      · simp only [Bool.not_true, Bool.false_eq_true, if_false, if_neg hfull, and_true]
        exact and_congr_left fun _ => by omega

theorem rightSoFar_of_append {held more : Octets} (h : RightSoFar (held ++ more)) :
    RightSoFar held := by
  obtain ⟨hfits, hoctets⟩ := h
  rw [List.length_append] at hfits
  rw [List.all_append, Bool.and_eq_true] at hoctets
  exact ⟨by omega, hoctets.1⟩

theorem rightSoFar_of_isMessage {line : Octets} (h : IsMessage line) : RightSoFar line :=
  ⟨h.fits, List.all_eq_true.2 h.octets⟩

theorem firstFault?_of_rightSoFar {held line : Octets} (h : RightSoFar (held ++ line)) :
    firstFault? held.length line = none := by
  induction line generalizing held with
  | nil => rfl
  | cons b line ih =>
      rw [List.append_cons] at h
      have hnone := (rightSoFar_concat.1 (rightSoFar_of_append h)).2
      have hlater := ih h
      rw [List.length_append, List.length_singleton] at hlater
      rw [firstFault?, hnone]
      exact hlater

theorem linesAmong_reports (start : Nat) (lines : List Octets) :
    linesAmong (reports start lines) = lines.dropLast.filter (IsMessage ·) := by
  induction lines generalizing start with
  | nil => rfl
  | cons line lines ih =>
      have hfault : linesAmong ((((firstFault? 0 line).map fun (place, fault) =>
          (place, LineEvent.fault fault)).map fun (place, event) =>
            (start + place, event)).toList) = [] := by
        cases firstFault? 0 line <;> rfl
      rw [reports, linesAmong_append, ih, report?]
      cases lines with
      | nil => simpa using hfault
      | cons next lines =>
          rw [List.dropLast_cons_cons, List.filter_cons]
          by_cases hmessage : IsMessage line
          · simp [hmessage, linesAmong, LineEvent.line?]
          · simpa [hmessage] using hfault

namespace Framer

/-- Where a framer stands after the octets `held` of a line that has not ended. -/
def within (held : Octets) : Framer :=
  if RightSoFar held then ⟨.collecting, held⟩ else ⟨.skipping, []⟩

theorem within_nil : within [] = start := rfl

theorem within_of_right {held : Octets} (h : RightSoFar held) : within held = ⟨.collecting, held⟩ :=
  if_pos h

theorem within_of_wrong {held : Octets} (h : ¬RightSoFar held) : within held = ⟨.skipping, []⟩ :=
  if_neg h

/-! ### One octet -/

/-- Nothing stays in the buffer, neither of a line that is passed on nor of one that was given up. -/
theorem feed_lineEnd {b : UInt8} (hb : isLineEnd b = true) (held : Octets) :
    (within held).feed b = (if IsMessage held then some (.line held) else none, start) := by
  by_cases hright : RightSoFar held
  · rw [within_of_right hright, feed]
    dsimp only
    rw [if_pos hb]
    cases held with
    | nil => rfl
    | cons first held =>
        have hmessage : IsMessage (first :: held) :=
          ⟨Nat.succ_pos _, hright.1, List.all_eq_true.1 hright.2⟩
        rw [if_pos hmessage]
        rfl
  · have hmessage : ¬IsMessage held := fun h => hright (rightSoFar_of_isMessage h)
    rw [within_of_wrong hright, feed, if_neg hmessage]
    dsimp only
    rw [if_pos hb]
    rfl

/-- Inside a line its first fault is reported and nothing else. -/
theorem feed_inside {b : UInt8} (hb : isLineEnd b = false) (held : Octets) :
    (within held).feed b =
      (if RightSoFar held then (faultAt? held.length b).map .fault else none,
        within (held ++ [b])) := by
  by_cases hright : RightSoFar held
  · have hnext := @rightSoFar_concat held b
    rw [within_of_right hright, if_pos hright]
    simp only [feed, hb, Bool.false_eq_true, if_false]
    unfold faultAt? at hnext ⊢
    cases hoctet : isLineOctet b with
    | false =>
        rw [within_of_wrong (by simp [hnext, hoctet])]
        rfl
    | true =>
        by_cases hroom : held.length < lineLimit
        · have hnotfull : held.length ≠ lineLimit := Nat.ne_of_lt hroom
          rw [within_of_right (by simp [hnext, hoctet, hnotfull, hright]), if_pos hroom,
            if_neg hnotfull]
          rfl
        · have hfull : held.length = lineLimit := Nat.le_antisymm hright.1 (Nat.not_lt.1 hroom)
          rw [within_of_wrong (by simp [hnext, hoctet, hfull]), if_neg hroom, if_pos hfull]
          rfl
  · have hnext : ¬RightSoFar (held ++ [b]) := fun h => hright (rightSoFar_concat.1 h).1
    rw [within_of_wrong hright, within_of_wrong hnext, if_neg hright, feed]
    dsimp only
    rw [hb]
    rfl

/-! ### Streams -/

theorem feedAll_cons (offset : Nat) (b : UInt8) (rest : Octets) (framer : Framer) :
    feedAll offset (b :: rest) framer =
      (((framer.feed b).1.map (offset, ·)).toList ++
        (feedAll (offset + 1) rest (framer.feed b).2).1,
        (feedAll (offset + 1) rest (framer.feed b).2).2) := rfl

theorem linesAmong_feedAll_cons (offset : Nat) (b : UInt8) (rest : Octets) (framer : Framer) :
    linesAmong (feedAll offset (b :: rest) framer).1 =
      ((framer.feed b).1.bind LineEvent.line?).toList ++
        linesAmong (feedAll (offset + 1) rest (framer.feed b).2).1 := by
  rw [feedAll_cons, linesAmong_append]
  congr 1
  rcases (framer.feed b).1 with _ | ⟨line⟩ | ⟨fault⟩ <;> rfl

theorem feedAll_append (offset : Nat) (a b : Octets) (framer : Framer) :
    feedAll offset (a ++ b) framer =
      ((feedAll offset a framer).1 ++ (feedAll (offset + a.length) b (feedAll offset a framer).2).1,
        (feedAll (offset + a.length) b (feedAll offset a framer).2).2) := by
  induction a generalizing offset framer with
  | nil => rfl
  | cons x a ih =>
      rw [List.cons_append, feedAll_cons, feedAll_cons, ih, List.append_assoc, List.length_cons,
        Nat.add_assoc, Nat.add_comm 1 a.length]

/-- The octets of a line that began at `start`, from those in `held` on. -/
theorem feedAll_inside {line : Octets} (hline : ∀ b ∈ line, isLineEnd b = false) (start : Nat)
    (held : Octets) :
    feedAll (start + held.length) line (within held) =
      ((if RightSoFar held then (firstFault? held.length line).map fun (place, fault) =>
          (start + place, .fault fault) else none).toList, within (held ++ line)) := by
  induction line generalizing held with
  | nil =>
      rw [firstFault?, List.append_nil]
      split <;> rfl
  | cons b line ih =>
      rw [List.forall_mem_cons] at hline
      have hlater := ih hline.2 (held ++ [b])
      rw [List.length_append, List.length_singleton, ← Nat.add_assoc, List.append_assoc,
        List.singleton_append] at hlater
      rw [feedAll_cons, feed_inside hline.1, hlater]
      simp only [rightSoFar_concat, firstFault?]
      by_cases hright : RightSoFar held
      · cases hfault : faultAt? held.length b <;> simp [hright]
      · simp [hright]

/-- A line that has not ended. -/
theorem feedAll_line {line : Octets} (hline : ∀ b ∈ line, isLineEnd b = false) (offset : Nat) :
    feedAll offset line start =
      (((report? false line).map fun (place, event) => (offset + place, event)).toList,
        within line) := by
  have hinside := feedAll_inside hline offset []
  have hright : RightSoFar [] := by decide
  rw [within_nil, if_pos hright] at hinside
  rw [report?, if_neg (by simp), Option.map_map]
  exact hinside

/-- A line with its end. -/
theorem feedAll_lineEnd {line : Octets} (hline : ∀ b ∈ line, isLineEnd b = false) {b : UInt8}
    (hb : isLineEnd b = true) (offset : Nat) :
    feedAll offset (line ++ [b]) start =
      (((report? true line).map fun (place, event) => (offset + place, event)).toList,
        start) := by
  rw [feedAll_append, feedAll_line hline, feedAll_cons, feed_lineEnd hb]
  by_cases hmessage : IsMessage line
  · have hnone := @firstFault?_of_rightSoFar [] line (rightSoFar_of_isMessage hmessage)
    simp only [report?, hmessage, List.length_nil] at hnone ⊢
    simp [hnone, feedAll]
  · simp [report?, hmessage, feedAll]

/-- The lines of a stream are reported one by one, and nothing of a line is left behind its end. -/
theorem feedAll_start (offset : Nat) (stream : Octets) :
    feedAll offset stream start = (reports offset (stream.splitOnP isLineEnd),
      within ((stream.splitOnP isLineEnd).getLastD [])) := by
  induction stream using stream_induction generalizing offset with
  | last line hline =>
      rw [feedAll_line hline, List.splitOnP_eq_singleton hline]
      simp [reports]
  | line line b rest hline hb ih =>
      have hrest := ih (offset + line.length + 1)
      rw [List.splitOnP_append_cons_of_forall_mem hline b hb, List.append_cons, feedAll_append,
        feedAll_lineEnd hline hb, List.length_append, List.length_singleton, ← Nat.add_assoc, hrest,
        reports]
      obtain ⟨next, lines, hcons⟩ := List.exists_cons_of_ne_nil (List.splitOnP_ne_nil isLineEnd rest)
      simp [hcons]

/-- Framing a stream from its start finds its messages. -/
theorem linesAmong_feedAll_start (offset : Nat) (stream : Octets) :
    linesAmong (feedAll offset stream start).1 = messagesOf stream := by
  rw [feedAll_start, linesAmong_reports, messagesOf]

end Framer

/-! ### One more octet of a stream -/

/-- The unfinished line that a stream ends in. -/
def unfinished (stream : Octets) : Octets :=
  (stream.splitOnP isLineEnd).getLastD []

theorem messagesOf_concat (stream : Octets) (b : UInt8) :
    messagesOf (stream ++ [b]) = messagesOf stream ++
      (((Framer.within (unfinished stream)).feed b).1.bind LineEvent.line?).toList := by
  have hmore := Framer.linesAmong_feedAll_start 0 (stream ++ [b])
  have hstream := Framer.linesAmong_feedAll_start 0 stream
  rw [Framer.feedAll_append, linesAmong_append, hstream, Framer.linesAmong_feedAll_cons,
    Framer.feedAll_start] at hmore
  rw [unfinished, ← hmore]
  simp [Framer.feedAll, linesAmong]

/-- Only a line end completes a message, and the message is the line that it ends. -/
theorem messagesOf_concat_eq_iff {stream line : Octets} {b : UInt8} :
    messagesOf (stream ++ [b]) = messagesOf stream ++ [line] ↔
      isLineEnd b = true ∧ line = unfinished stream ∧ IsMessage line := by
  rw [messagesOf_concat, List.append_cancel_left_eq]
  cases hb : isLineEnd b with
  | true =>
      rw [Framer.feed_lineEnd hb]
      by_cases hmessage : IsMessage (unfinished stream)
      · simp only [if_pos hmessage, Option.bind_some, LineEvent.line?, Option.toList_some,
          List.cons.injEq, and_true, true_and]
        exact ⟨fun h => ⟨h.symm, h ▸ hmessage⟩, fun h => h.1.symm⟩
      · simp only [if_neg hmessage, Option.bind_none, Option.toList_none, true_and]
        exact ⟨nofun, fun h => absurd (h.1 ▸ h.2) hmessage⟩
  | false =>
      rw [Framer.feed_inside hb]
      simp only [Bool.false_eq_true, false_and, iff_false]
      by_cases hright : RightSoFar (unfinished stream)
      · rw [if_pos hright]
        cases faultAt? (unfinished stream).length b <;> nofun
      · rw [if_neg hright]
        nofun

end TimeSwitch.Wire
