import Mathlib.Data.List.Forall2
import TimeSwitch.Proofs.Device.Conversation

/-!
Polling over a link that may fail to take what is written. A poll that fails has fed a reading up to
the end of the message whose reply was not taken, and the rest of that reading is lost (`Intake`).
Everything else is fed in order, and the controller ends up where the messages among what was fed
lead.
-/

namespace TimeSwitch.Device

open Sequence Wire

/-- A link that delivers its readings. What is written to it may fail at any time, but does not
disturb what is still to be read. -/
class DeliveringLink (ε : outParam Type) (ℓ : Type) extends Link ε ℓ where
  /-- What the reads to come deliver, one after the other. -/
  readings : ℓ → List Octets
  read_next : ∀ {n link next later}, readings link = next :: later → next.length ≤ n →
    ∃ after, read n link = .ok next after ∧ readings after = later
  readings_write : ∀ octets link, readings (stateOf (write octets link)) = readings link
  readings_flush : ∀ link, readings (stateOf (flush link)) = readings link

/-- Readings to be delivered, and what will come of the writes and flushes to come: whether they are
taken. Those that nothing is said of are taken. -/
structure FaultyTape where
  readings : List Octets
  taken : List Bool
  written : Octets
  deriving DecidableEq, Repr

namespace FaultyTape

/-- The next reading; what there is no room for is left for the next read. -/
def read (n : Nat) : EStateM Unit FaultyTape Octets := fun tape =>
  match tape.readings with
  | [] => .ok [] tape
  | next :: later =>
    if next.length ≤ n then .ok next { tape with readings := later }
    else .ok (next.take n) { tape with readings := next.drop n :: later }

def write (octets : Octets) : EStateM Unit FaultyTape Unit := fun tape =>
  if tape.taken.headD true then
    .ok () { tape with taken := tape.taken.tail, written := tape.written ++ octets }
  else .error () { tape with taken := tape.taken.tail }

instance : DeliveringLink Unit FaultyTape where
  read := read
  write := write
  flush := write []
  readings := readings
  read_next := by
    rintro n ⟨_, taken, written⟩ next later rfl hlength
    refine ⟨⟨later, taken, written⟩, ?_, rfl⟩
    rw [read]
    exact if_pos hlength
  readings_write octets tape := by
    rw [write]
    split <;> rfl
  readings_flush tape := by
    rw [write]
    split <;> rfl

end FaultyTape

variable {κ π ε ℓ : Type}

namespace Console

open DeliveringLink

section

variable [DeliveringLink ε ℓ]

theorem readings_writeReply (reply : Octets) (link : ℓ) :
    readings (stateOf (writeReply reply link)) = readings link := by
  have hreply := readings_write reply link
  simp only [writeReply, bind, EStateM.bind]
  cases hfirst : Link.write reply link with
  | error e a =>
      rw [hfirst] at hreply
      exact hreply
  | ok u a =>
      rw [hfirst] at hreply
      have hend := readings_write [10] a
      dsimp only
      cases hsecond : Link.write [10] a with
      | error e b =>
          rw [hsecond] at hend
          exact hend.trans hreply
      | ok u b =>
          rw [hsecond] at hend
          exact (readings_flush b).trans (hend.trans hreply)

/-- Whether the reply is taken or not, it is no longer in the outbox. -/
theorem stateOf_deliver (console : Console κ π) (link : ℓ) : ∃ after,
    stateOf (deliver (console, link)) =
      ({ console with dispatcher.device := console.controller.takeReply.2 }, after) ∧
      readings after = readings link := by
  rcases hreply : console.controller.takeReply with ⟨_ | reply, controller⟩
  · refine ⟨link, ?_, rfl⟩
    simp only [deliver, hreply]
    rfl
  · refine ⟨stateOf (writeReply reply link), ?_, readings_writeReply reply link⟩
    simp only [deliver, hreply, onLink]
    cases writeReply reply link <;> rfl

end

variable [Clock κ] [Pin π]

open Controller

/-- The console after one more octet, the reply to it taken out of the outbox. -/
def feed (console : Console κ π) (b : UInt8) : Console κ π :=
  ⟨attendAll ((console.framer.feed b).1.bind LineEvent.line?).toList console.dispatcher,
    (console.framer.feed b).2⟩

/-- The console after octets in order. -/
def feedAll (console : Console κ π) (octets : Octets) : Console κ π :=
  octets.foldl feed console

theorem feedAll_append (console : Console κ π) (a b : Octets) :
    console.feedAll (a ++ b) = (console.feedAll a).feedAll b :=
  List.foldl_append

/-- Feeding comes to what framing the octets and attending to the lines comes to. -/
theorem feedAll_eq (offset : Nat) (octets : Octets) (d : Dispatcher (Controller κ π))
    (framer : Framer) :
    feedAll ⟨d, framer⟩ octets = ⟨attendAll (linesAmong (framer.feedAll offset octets).1) d,
      (framer.feedAll offset octets).2⟩ := by
  induction octets generalizing offset d framer with
  | nil => rfl
  | cons b octets ih =>
      rw [Framer.linesAmong_feedAll_cons, attendAll_append, Framer.feedAll_cons]
      exact ih (offset + 1) _ _

theorem feedAll_start (c : Controller κ π) (octets : Octets) :
    (start c).feedAll octets =
      ⟨attendAll (messagesOf octets) (.start c), .within (unfinished octets)⟩ := by
  rw [start, feedAll_eq 0, Framer.linesAmong_feedAll_start, Framer.feedAll_start]
  rfl

/-! ### One octet, one reading -/

/-- An octet that ends a message has it handled and answered. -/
theorem accept_eq [Link ε ℓ] (b : UInt8) (console : Console κ π) (link : ℓ) :
    accept b (console, link) = match (console.framer.feed b).1.bind LineEvent.line? with
      | some line => deliver (⟨stateOf (handlers.exchange line console.dispatcher),
          (console.framer.feed b).2⟩, link)
      | none => .ok () ({ console with framer := (console.framer.feed b).2 }, link) := by
  rw [accept]
  rcases console.framer.feed b with ⟨_ | ⟨line⟩ | ⟨fault⟩, framer⟩
  · rfl
  · exact congrArg (fun console => deliver (console, link)) (handle_eq line _)
  · rfl

section

variable [DeliveringLink ε ℓ]

/-- An octet is fed whatever comes of it. Only at the end of a message can anything go wrong. -/
theorem exists_accept (b : UInt8) (console : Console κ π) (link : ℓ) : ∃ after,
    stateOf (accept b (console, link)) = (console.feed b, after) ∧
      readings after = readings link ∧
      ∀ e, outcomeOf (accept b (console, link)) = .error e →
        ∃ line, (console.framer.feed b).1.bind LineEvent.line? = some line := by
  rw [accept_eq, feed]
  cases hline : (console.framer.feed b).1.bind LineEvent.line? with
  | none =>
      refine ⟨link, rfl, rfl, ?_⟩
      rintro e ⟨⟩
  | some line =>
      obtain ⟨after, hafter, hreadings⟩ := stateOf_deliver
        (⟨stateOf (handlers.exchange line console.dispatcher), (console.framer.feed b).2⟩ :
          Console κ π) link
      exact ⟨after, hafter, hreadings, fun _ _ => ⟨line, rfl⟩⟩

/-- What is fed of octets that are taken in order: all of them, or those up to the end of the
message where it went wrong. -/
theorem exists_acceptAll (octets : Octets) (console : Console κ π) (link : ℓ) :
    ∃ fed lost after, octets = fed ++ lost ∧
      stateOf (acceptAll octets (console, link)) = (console.feedAll fed, after) ∧
      readings after = readings link ∧
      (outcomeOf (acceptAll octets (console, link)) = .ok () ∧ lost = [] ∨
        ∃ e front b line, outcomeOf (acceptAll octets (console, link)) = .error e ∧
          fed = front ++ [b] ∧
          ((console.feedAll front).framer.feed b).1.bind LineEvent.line? = some line) := by
  induction octets generalizing console link with
  | nil => exact ⟨[], [], link, rfl, rfl, rfl, .inl ⟨rfl, rfl⟩⟩
  | cons b octets ih =>
      obtain ⟨middle, hfirst, hreadings, hwrong⟩ := exists_accept b console link
      simp only [acceptAll, bind, EStateM.bind]
      cases haccept : accept b (console, link) with
      | error e s =>
          rw [haccept] at hfirst hwrong
          obtain ⟨line, hline⟩ := hwrong e rfl
          exact ⟨[b], octets, middle, rfl, hfirst, hreadings,
            .inr ⟨e, [], b, line, rfl, rfl, hline⟩⟩
      | ok u s =>
          rw [haccept] at hfirst
          obtain rfl : s = (console.feed b, middle) := hfirst
          obtain ⟨fed, lost, after, rfl, hrest, hreadings', hend⟩ := ih (console.feed b) middle
          refine ⟨b :: fed, lost, after, rfl, hrest, hreadings'.trans hreadings, ?_⟩
          obtain hend | ⟨e, front, last, line, he, rfl, hline⟩ := hend
          · exact .inl hend
          · exact .inr ⟨e, b :: front, last, line, he, rfl, hline⟩

end

end Console

/-! ### What is fed of readings -/

/-- What a poll feeds of a reading, after the octets fed before it: all of the reading, or what goes
up to the end of the message whose reply was not taken. -/
inductive Intake (earlier : Octets) : Octets → Except ε Nat → Octets → Prop
  | whole (reading : Octets) : Intake earlier reading (.ok reading.length) reading
  | cut (e : ε) (front : Octets) (b : UInt8) (lost line : Octets)
      (ended : messagesOf (earlier ++ front ++ [b]) = messagesOf (earlier ++ front) ++ [line]) :
      Intake earlier (front ++ b :: lost) (.error e) (front ++ [b])

/-- What polls feed of readings, one after the other. -/
inductive Intakes : Octets → List Octets → List (Except ε Nat) → List Octets → Prop
  | nil (earlier : Octets) : Intakes earlier [] [] []
  | cons {earlier reading fed : Octets} {outcome : Except ε Nat} {later laterFed : List Octets}
      {outcomes : List (Except ε Nat)} (first : Intake earlier reading outcome fed)
      (rest : Intakes (earlier ++ fed) later outcomes laterFed) :
      Intakes earlier (reading :: later) (outcome :: outcomes) (fed :: laterFed)

/-- The reading does not go on after a line end. -/
def StopsAtLineEnd (reading : Octets) : Prop :=
  ∀ b ∈ reading.dropLast, isLineEnd b = false

namespace Intake

variable {earlier reading fed : Octets} {outcome : Except ε Nat}

theorem fed_prefix (h : Intake earlier reading outcome fed) : fed <+: reading := by
  cases h with
  | whole => exact List.prefix_rfl
  | cut e front b lost => exact ⟨lost, (List.append_cons front b lost).symm⟩

theorem eq_of_ok (h : Intake earlier reading outcome fed) (hok : outcome.isOk = true) :
    fed = reading := by
  cases h with
  | whole => rfl
  | cut => cases hok

theorem eq_of_stopsAtLineEnd (h : Intake earlier reading outcome fed)
    (hreading : StopsAtLineEnd reading) : fed = reading := by
  cases h with
  | whole => rfl
  | cut e front b lost line ended =>
      cases lost with
      | nil => rfl
      | cons next lost =>
          have hb : isLineEnd b = true := (messagesOf_concat_eq_iff.1 ended).1
          have hmem : b ∈ (front ++ b :: next :: lost).dropLast := by simp
          rw [hreading b hmem] at hb
          cases hb

end Intake

namespace Intakes

variable {earlier : Octets} {pieces fed : List Octets} {outcomes : List (Except ε Nat)}

/-- Of every reading a front is fed, and nothing else. -/
theorem fed_prefixes (h : Intakes earlier pieces outcomes fed) :
    List.Forall₂ (· <+: ·) fed pieces := by
  induction h with
  | nil => exact .nil
  | cons first _ ih => exact .cons first.fed_prefix ih

theorem eq_of_ok (h : Intakes earlier pieces outcomes fed)
    (hok : ∀ outcome ∈ outcomes, outcome.isOk = true) : fed = pieces := by
  induction h with
  | nil => rfl
  | cons first _ ih =>
      rw [List.forall_mem_cons] at hok
      rw [first.eq_of_ok hok.1, ih hok.2]

theorem eq_of_stopsAtLineEnd (h : Intakes earlier pieces outcomes fed)
    (hpieces : ∀ reading ∈ pieces, StopsAtLineEnd reading) : fed = pieces := by
  induction h with
  | nil => rfl
  | cons first _ ih =>
      rw [List.forall_mem_cons] at hpieces
      rw [first.eq_of_stopsAtLineEnd hpieces.1, ih hpieces.2]

end Intakes

/-! ### Polling on -/

namespace Console

open DeliveringLink Controller

section

variable [Clock κ] [Pin π]

/-- Polls that many times, whatever comes of each poll. -/
def pollOn [Link ε ℓ] :
    Nat → Console κ π × ℓ → List (Except ε Nat) × (Console κ π × ℓ)
  | 0, s => ([], s)
  | n + 1, s =>
    let (outcomes, after) := pollOn n (stateOf (poll s))
    (outcomeOf (poll s) :: outcomes, after)

/-- What comes of a poll is what comes of taking in the octets that were read. -/
theorem poll_of_read [Link ε ℓ] (console : Console κ π) {link middle : ℓ} {next : Octets}
    (hread : Link.read readLimit link = .ok next middle) :
    stateOf (poll (console, link)) = stateOf (acceptAll next (console, middle)) ∧
      outcomeOf (poll (console, link)) =
        (outcomeOf (acceptAll next (console, middle))).map fun _ => next.length := by
  simp only [poll, bind, EStateM.bind, onLink, hread]
  cases acceptAll next (console, middle) <;> exact ⟨rfl, rfl⟩

variable [DeliveringLink ε ℓ]

theorem exists_intake (c : Controller κ π) (earlier : Octets) {link : ℓ} {next : Octets}
    {later : List Octets} (hlink : readings link = next :: later)
    (hnext : next.length ≤ readLimit) : ∃ fed after,
    stateOf (poll ((start c).feedAll earlier, link)) =
      ((start c).feedAll (earlier ++ fed), after) ∧
    readings after = later ∧
    Intake earlier next (outcomeOf (poll ((start c).feedAll earlier, link))) fed := by
  obtain ⟨middle, hread, hreadings⟩ := read_next hlink hnext
  obtain ⟨fed, lost, after, rfl, haccept, hreadings', hend⟩ :=
    exists_acceptAll next ((start c).feedAll earlier) middle
  obtain ⟨hstate, houtcome⟩ := poll_of_read ((start c).feedAll earlier) hread
  refine ⟨fed, after, ?_, hreadings'.trans hreadings, ?_⟩
  · rw [hstate, haccept, feedAll_append]
  · obtain ⟨hok, rfl⟩ | ⟨e, front, b, line, he, rfl, hline⟩ := hend
    · rw [houtcome, hok, List.append_nil]
      exact .whole fed
    · rw [houtcome, he, ← List.append_cons]
      refine .cut e front b lost line ?_
      rw [← feedAll_append, feedAll_start] at hline
      rw [messagesOf_concat, hline]
      rfl

theorem exists_intakes (c : Controller κ π) (earlier : Octets) {link : ℓ}
    (hlink : ∀ octets ∈ readings link, octets.length ≤ readLimit) : ∃ fed after,
    (pollOn (readings link).length ((start c).feedAll earlier, link)).2 =
      ((start c).feedAll (earlier ++ fed.flatten), after) ∧
    readings after = [] ∧
    Intakes earlier (readings link)
      (pollOn (readings link).length ((start c).feedAll earlier, link)).1 fed := by
  generalize hreadings : readings link = pieces at hlink
  induction pieces generalizing earlier link with
  | nil => exact ⟨[], link, by rw [List.flatten_nil, List.append_nil]; rfl, hreadings, .nil earlier⟩
  | cons next later ih =>
      rw [List.forall_mem_cons] at hlink
      obtain ⟨first, middle, hpoll, hlater, hfirst⟩ :=
        exists_intake c earlier hreadings hlink.1
      obtain ⟨rest, after, hpolls, hafter, hrest⟩ := ih (earlier ++ first) hlater hlink.2
      rw [← hpoll] at hpolls hrest
      refine ⟨first :: rest, after, ?_, hafter, .cons hfirst hrest⟩
      rw [List.flatten_cons, ← List.append_assoc]
      exact hpolls

/-- Polling on over a link that may fail to take replies loses ends of readings and nothing else. A
reading is fed up to the end of a message whose reply was not taken; what follows in it is not fed,
and the next reading is taken in its place. The console then stands where the same octets lead over
a link on which nothing fails. Nothing is lost if no poll fails, or if no reading goes on after the
end of a line. -/
theorem polls_lose_ends_of_readings (c : Controller κ π) (link : ℓ)
    (hlink : ∀ octets ∈ readings link, octets.length ≤ readLimit) :
    let outcomes := (pollOn (readings link).length (start c, link)).1
    ∃ fed reply after, Intakes [] (readings link) outcomes fed ∧
      (pollOn (readings link).length (start c, link)).2 =
        (⟨⟨if messagesOf fed.flatten = [] then c
            else (handleAll (messagesOf fed.flatten) c).takeReply.2, reply⟩,
          .within (unfinished fed.flatten)⟩, after) ∧
      readings after = [] ∧ List.Forall₂ (· <+: ·) fed (readings link) ∧
      ((∀ outcome ∈ outcomes, outcome.isOk = true) ∨
        (∀ reading ∈ readings link, StopsAtLineEnd reading) → fed = readings link) ∧
      ∀ {ε' ℓ' : Type} [SteadyLink ε' ℓ'] (other : ℓ'),
        (SteadyLink.readings other).flatten = fed.flatten →
        (∀ octets ∈ SteadyLink.readings other, octets.length ≤ readLimit) →
        ∃ after', polls (SteadyLink.readings other).length (start c, other) = .ok () after' ∧
          after'.1 = (pollOn (readings link).length (start c, link)).2.1 := by
  intro outcomes
  obtain ⟨fed, after, hpolls, hafter, hfed⟩ := exists_intakes c [] hlink
  have hnonempty : ∀ line ∈ messagesOf fed.flatten, line ≠ [] := by
    rintro line hline rfl
    exact absurd (isMessage_of_mem hline).nonempty (by decide)
  have hdevice : (attendAll (messagesOf fed.flatten) (.start c)).device =
      if messagesOf fed.flatten = [] then c
        else (handleAll (messagesOf fed.flatten) c).takeReply.2 :=
    (device_attendAll _ _).trans (serve_eq_handleAll hnonempty c)
  refine ⟨fed, (attendAll (messagesOf fed.flatten) (.start c)).reply, after, hfed, ?_, hafter,
    hfed.fed_prefixes, ?_, ?_⟩
  · refine hpolls.trans ?_
    rw [List.nil_append, feedAll_start, ← hdevice]
  · rintro (hok | hpieces)
    · exact hfed.eq_of_ok hok
    · exact hfed.eq_of_stopsAtLineEnd hpieces
  · intro ε' ℓ' _ other hother hlimit
    obtain ⟨after', hafter', -⟩ := polls_steady 0 (.start c) .start hlimit
    refine ⟨_, hafter', ?_⟩
    have hconsole := congrArg Prod.fst hpolls
    rw [hother, ← feedAll_eq]
    exact hconsole.symm

end

/-- Two lines in one reading, and the reply to the first is not taken: of the second nothing is
fed. -/
theorem polls_lose_ends_of_readings_second :
    let tape : FaultyTape := ⟨[[66, 10, 69, 48, 32, 84, 10], []], [false], []⟩
    let c : Controller SoftClock Bench.Pin := .boot .unset (Vector.replicate 4 .start) .standard
    (∀ octets ∈ tape.readings, octets.length ≤ readLimit) ∧
      ∃ fed reply after, Intakes [] tape.readings [Except.error (), .ok 0] fed ∧
        pollOn 2 (start c, tape) = ([Except.error (), .ok 0],
          ⟨⟨if messagesOf fed.flatten = [] then c
              else (handleAll (messagesOf fed.flatten) c).takeReply.2, reply⟩,
            .within (unfinished fed.flatten)⟩, after) := by
  intro tape c
  have hlink : ∀ octets ∈ tape.readings, octets.length ≤ readLimit := by
    simp [tape, readLimit]
  obtain ⟨fed, reply, after, hfed, hpolls, -⟩ := polls_lose_ends_of_readings c tape hlink
  exact ⟨hlink, fed, reply, after, hfed, Prod.ext rfl hpolls⟩

/-- A write that fails costs a line: the trigger in the second line is set if every write is taken,
and not if the first one is not. -/
theorem failed_write_loses_line :
    let stream : Octets := [66, 10, 69, 48, 32, 84, 10]
    let c : Controller SoftClock Bench.Pin := .boot .unset (Vector.replicate 4 .start) .standard
    let polled (taken : List Bool) := pollOn 2 (start c, (⟨[stream, []], taken, []⟩ : FaultyTape))
    messagesOf stream = [[66], [69, 48, 32, 84]] ∧
      (polled []).2.1.controller.triggers.get? 0 = some "T" ∧
      (polled [false]).2.1.controller.triggers.get? 0 = none := by
  decide +kernel

end Console

end TimeSwitch.Device
