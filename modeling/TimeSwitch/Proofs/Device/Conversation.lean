import TimeSwitch.Bench.Pin
import TimeSwitch.Device.Console
import TimeSwitch.Proofs.Device.Answering
import TimeSwitch.Proofs.Device.SteadyLink
import TimeSwitch.Proofs.Wire.Framing

/-!
A conversation over a steady link. Polling answers the messages of the stream one by one, however
the stream is cut into readings, and the controller ends up where handling the messages leads.
-/

namespace TimeSwitch.Device

open Sequence Wire

variable {κ π ε ℓ : Type}

namespace Console

open SteadyLink

variable [SteadyLink ε ℓ]

/-- What the replies look like on the link. -/
def framed (replies : List Octets) : Octets :=
  replies.flatMap (· ++ [10])

theorem framed_append (a b : List Octets) : framed (a ++ b) = framed a ++ framed b :=
  List.flatMap_append

theorem writeReply_steady (reply : Octets) (link : ℓ) : ∃ after,
    writeReply reply link = .ok () after ∧ readings after = readings link ∧
      written after = written link ++ (reply ++ [10]) := by
  obtain ⟨a, ha, hra, hwa⟩ := write_takes reply link
  obtain ⟨b, hb, hrb, hwb⟩ := write_takes [10] a
  obtain ⟨c, hc, hrc, hwc⟩ := flush_takes b
  refine ⟨c, ?_, ?_, ?_⟩
  · simp only [writeReply, step_bind_eq_ok]
    exact ⟨(), a, ha, (), b, hb, hc⟩
  · rw [hrc, hrb, hra]
  · rw [hwc, hwb, hwa, List.append_assoc]

theorem deliver_steady (console : Console κ π) (link : ℓ) : ∃ after,
    deliver (console, link) =
      .ok () ({ console with dispatcher.device := console.controller.takeReply.2 }, after) ∧
      readings after = readings link ∧
      written after = written link ++ framed console.controller.takeReply.1.toList := by
  rcases hreply : console.controller.takeReply with ⟨_ | reply, controller⟩
  · refine ⟨link, ?_, rfl, (List.append_nil _).symm⟩
    simp only [deliver, hreply]
  · obtain ⟨after, hafter, hreadings, hwritten⟩ := writeReply_steady reply link
    refine ⟨after, ?_, hreadings, ?_⟩
    · simp only [deliver, hreply, onLink, hafter]
    · simpa [framed] using hwritten

end Console

variable [Clock κ] [Pin π]

namespace Controller

/-- Handles lines in order. -/
def handleAll (lines : List Octets) (c : Controller κ π) : Controller κ π :=
  lines.foldl (fun c line => handled line c) c

/-- The replies in the outbox after each of the lines. -/
def replies : List Octets → Controller κ π → List Octets
  | [], _ => []
  | line :: lines, c => (handled line c).outbox.toList ++ replies lines (handled line c)

/-- Handles lines in order and takes the reply to each. -/
def serve (lines : List Octets) (c : Controller κ π) : Controller κ π :=
  lines.foldl (fun c line => (handled line c).takeReply.2) c

/-- The replies taken. -/
def served : List Octets → Controller κ π → List Octets
  | [], _ => []
  | line :: lines, c =>
    (handled line c).takeReply.1.toList ++ served lines (handled line c).takeReply.2

theorem served_append (a b : List Octets) (c : Controller κ π) :
    served (a ++ b) c = served a c ++ served b (serve a c) := by
  induction a generalizing c with
  | nil => rfl
  | cons line a ih =>
      rw [List.cons_append, served, served, ih, List.append_assoc]
      rfl

/-- A line is handled and the reply to it is taken. -/
def attend (line : Octets) (d : Dispatcher (Controller κ π)) : Dispatcher (Controller κ π) :=
  let after := stateOf (handlers.exchange line d)
  { after with device := after.device.takeReply.2 }

def attendAll (lines : List Octets) (d : Dispatcher (Controller κ π)) :
    Dispatcher (Controller κ π) :=
  lines.foldl (fun d line => attend line d) d

theorem attendAll_append (a b : List Octets) (d : Dispatcher (Controller κ π)) :
    attendAll (a ++ b) d = attendAll b (attendAll a d) :=
  List.foldl_append

/-- What the dispatcher keeps of its replies does not show in the controller. -/
@[simp] theorem device_attendAll (lines : List Octets) (d : Dispatcher (Controller κ π)) :
    (attendAll lines d).device = serve lines d.device := by
  induction lines generalizing d with
  | nil => rfl
  | cons line lines ih =>
      have hfirst : (attend line d).device = (handled line d.device).takeReply.2 :=
        congrArg (fun c => c.takeReply.2) (device_exchange line d)
      have hrest := ih (attend line d)
      rw [hfirst] at hrest
      exact hrest

/-- Taking a reply changes nothing that a later line could see. -/
theorem served_withOutbox {lines : List Octets} (hlines : ∀ line ∈ lines, line ≠ [])
    (outbox : Option Octets) (c : Controller κ π) :
    served lines (c.withOutbox outbox) = served lines c := by
  cases lines with
  | nil => rfl
  | cons line lines =>
      rw [served, served, handled_withOutbox (hlines line List.mem_cons_self)]

theorem served_eq_replies {lines : List Octets} (hlines : ∀ line ∈ lines, line ≠ [])
    (c : Controller κ π) : served lines c = replies lines c := by
  induction lines generalizing c with
  | nil => rfl
  | cons line lines ih =>
      rw [List.forall_mem_cons] at hlines
      have hlater : served lines (handled line c).takeReply.2 = replies lines (handled line c) :=
        (served_withOutbox hlines.2 none _).trans (ih hlines.2 _)
      rw [served, replies, hlater]
      rfl

theorem serve_eq_handleAll {lines : List Octets} (hlines : ∀ line ∈ lines, line ≠ [])
    (c : Controller κ π) :
    serve lines c = if lines = [] then c else (handleAll lines c).takeReply.2 := by
  induction lines generalizing c with
  | nil => rfl
  | cons line lines ih =>
      rw [List.forall_mem_cons] at hlines
      rw [if_neg (List.cons_ne_nil line lines)]
      cases lines with
      | nil => rfl
      | cons next lines =>
          have hnext := hlines.2 next List.mem_cons_self
          have hlater := ih hlines.2 (handled line c)
          rw [if_neg (List.cons_ne_nil next lines)] at hlater
          -- The reply to `line` is gone from the outbox by then, but `next` does not see that.
          have hskip : serve (next :: lines) (handled line c).takeReply.2 =
              serve (next :: lines) (handled line c) := by
            show serve lines (handled next ((handled line c).withOutbox none)).takeReply.2 = _
            rw [handled_withOutbox hnext]
            rfl
          exact hskip.trans hlater

theorem length_replies {lines : List Octets} (hlines : ∀ line ∈ lines, IsMessage line)
    (c : Controller κ π) : (replies lines c).length = lines.length := by
  induction lines generalizing c with
  | nil => rfl
  | cons line lines ih =>
      rw [List.forall_mem_cons] at hlines
      obtain ⟨reply, hreply, -⟩ := exists_answers_handled hlines.1 c
      rw [replies, hreply, Option.toList_some, List.singleton_append, List.length_cons,
        ih hlines.2, List.length_cons]

theorem answers_of_mem_zip {lines : List Octets} (hlines : ∀ line ∈ lines, IsMessage line)
    (c : Controller κ π) : ∀ pair ∈ lines.zip (replies lines c), Answers pair.1 pair.2 := by
  induction lines generalizing c with
  | nil => nofun
  | cons line lines ih =>
      rw [List.forall_mem_cons] at hlines
      obtain ⟨reply, hreply, hanswers⟩ := exists_answers_handled hlines.1 c
      rw [replies, hreply, Option.toList_some, List.singleton_append, List.zip_cons_cons,
        List.forall_mem_cons]
      exact ⟨hanswers, ih hlines.2 _⟩

end Controller

namespace Console

open Controller SteadyLink

/-- Polls that many times. -/
def polls [Link ε ℓ] : Nat → EStateM ε (Console κ π × ℓ) Unit
  | 0 => pure ()
  | n + 1 => do
    let _ ← poll
    polls n

theorem handle_eq (line : Octets) (console : Console κ π) : handle line console =
    { console with dispatcher := stateOf (handlers.exchange line console.dispatcher) } := by
  rw [handle]
  cases handlers.exchange line console.dispatcher <;> rfl

variable [SteadyLink ε ℓ]

/-- One octet leads on to the line that it ends, if it ends one. -/
theorem accept_steady (b : UInt8) (d : Dispatcher (Controller κ π)) (framer : Framer) (link : ℓ) :
    ∃ after, accept b (⟨d, framer⟩, link) = .ok ()
      (⟨attendAll ((framer.feed b).1.bind LineEvent.line?).toList d, (framer.feed b).2⟩, after) ∧
      readings after = readings link ∧ written after = written link ++
        framed (served ((framer.feed b).1.bind LineEvent.line?).toList d.device) := by
  rcases hfeed : framer.feed b with ⟨_ | ⟨line⟩ | ⟨fault⟩, framer'⟩
  · refine ⟨link, ?_, rfl, (List.append_nil _).symm⟩
    simp only [accept, hfeed]
    rfl
  · obtain ⟨after, hafter, hreadings, hwritten⟩ :=
      deliver_steady (handle line (⟨d, framer'⟩ : Console κ π)) link
    rw [handle_eq] at hafter hwritten
    refine ⟨after, ?_, hreadings, ?_⟩
    · simp only [accept, hfeed, handle_eq]
      exact hafter
    · rw [hwritten, controller, device_exchange]
      simp [served, LineEvent.line?]
  · refine ⟨link, ?_, rfl, (List.append_nil _).symm⟩
    simp only [accept, hfeed]
    rfl

theorem acceptAll_steady (offset : Nat) (octets : Octets) (d : Dispatcher (Controller κ π))
    (framer : Framer) (link : ℓ) : ∃ after, acceptAll octets (⟨d, framer⟩, link) = .ok ()
      (⟨attendAll (linesAmong (framer.feedAll offset octets).1) d,
        (framer.feedAll offset octets).2⟩, after) ∧
      readings after = readings link ∧ written after = written link ++
        framed (served (linesAmong (framer.feedAll offset octets).1) d.device) := by
  induction octets generalizing offset d framer link with
  | nil => exact ⟨link, rfl, rfl, (List.append_nil _).symm⟩
  | cons b octets ih =>
      obtain ⟨middle, hfirst, hreadings, hwritten⟩ := accept_steady b d framer link
      obtain ⟨after, hrest, hreadings', hwritten'⟩ := ih (offset + 1)
        (attendAll ((framer.feed b).1.bind LineEvent.line?).toList d) (framer.feed b).2 middle
      rw [Framer.linesAmong_feedAll_cons, attendAll_append, served_append, framed_append]
      refine ⟨after, ?_, hreadings'.trans hreadings, ?_⟩
      · simp only [acceptAll, step_bind_eq_ok]
        exact ⟨(), _, hfirst, hrest⟩
      · rw [hwritten', hwritten, device_attendAll, List.append_assoc]

theorem poll_steady (offset : Nat) {next : Octets} {later : List Octets}
    (d : Dispatcher (Controller κ π)) (framer : Framer) {link : ℓ}
    (hlink : readings link = next :: later) (hnext : next.length ≤ readLimit) : ∃ after,
    poll (⟨d, framer⟩, link) = .ok next.length
      (⟨attendAll (linesAmong (framer.feedAll offset next).1) d, (framer.feedAll offset next).2⟩,
        after) ∧
      readings after = later ∧ written after = written link ++
        framed (served (linesAmong (framer.feedAll offset next).1) d.device) := by
  obtain ⟨middle, hread, hreadings, hwritten⟩ := read_next hlink hnext
  obtain ⟨after, haccept, hreadings', hwritten'⟩ := acceptAll_steady offset next d framer middle
  refine ⟨after, ?_, hreadings'.trans hreadings, ?_⟩
  · simp only [poll, step_bind_eq_ok]
    refine ⟨next, (⟨d, framer⟩, middle), ?_, (), _, haccept, rfl⟩
    simp only [onLink, hread]
  · rw [hwritten', hwritten]

theorem polls_steady (offset : Nat) (d : Dispatcher (Controller κ π)) (framer : Framer) {link : ℓ}
    (hlink : ∀ octets ∈ readings link, octets.length ≤ readLimit) : ∃ after,
    polls (readings link).length (⟨d, framer⟩, link) = .ok ()
      (⟨attendAll (linesAmong (framer.feedAll offset (readings link).flatten).1) d,
        (framer.feedAll offset (readings link).flatten).2⟩, after) ∧
      written after = written link ++ framed
        (served (linesAmong (framer.feedAll offset (readings link).flatten).1) d.device) := by
  -- The framer goes from one reading to the next as it stands, so the stream is fed in pieces.
  generalize hreadings : readings link = pieces at hlink
  induction pieces generalizing offset d framer link with
  | nil => exact ⟨link, rfl, (List.append_nil _).symm⟩
  | cons next later ih =>
      rw [List.forall_mem_cons] at hlink
      obtain ⟨middle, hpoll, hlater, hwritten⟩ := poll_steady offset d framer hreadings hlink.1
      obtain ⟨after, hpolls, hwritten'⟩ := ih (offset + next.length)
        (attendAll (linesAmong (framer.feedAll offset next).1) d) (framer.feedAll offset next).2
        hlater hlink.2
      rw [List.flatten_cons, Framer.feedAll_append, linesAmong_append, attendAll_append,
        served_append, framed_append]
      refine ⟨after, ?_, ?_⟩
      · simp only [List.length_cons, polls, step_bind_eq_ok]
        exact ⟨next.length, _, hpoll, hpolls⟩
      · rw [hwritten', hwritten, device_attendAll, List.append_assoc]

theorem isMessage_of_mem {stream line : Octets} (h : line ∈ messagesOf stream) :
    IsMessage line := by
  simpa using (List.mem_filter.1 h).2

/-- A stream that is polled in readings of any size up to the limit has its messages handled in
order. Each gets one reply, which is a message of its own, and nothing else is written. -/
theorem polls_answer_messages (c : Controller κ π) (link : ℓ) (stream : Octets)
    (hstream : (readings link).flatten = stream)
    (hlink : ∀ octets ∈ readings link, octets.length ≤ readLimit) :
    (∃ after, polls (readings link).length (start c, link) = .ok () after ∧
      after.1.controller = (if messagesOf stream = [] then c
        else (handleAll (messagesOf stream) c).takeReply.2) ∧
      written after.2 = written link ++ framed (replies (messagesOf stream) c) ∧
      ∀ other : ℓ, (readings other).flatten = stream →
        (∀ octets ∈ readings other, octets.length ≤ readLimit) → written other = written link →
        ∃ after', polls (readings other).length (start c, other) = .ok () after' ∧
          after'.1 = after.1 ∧ written after'.2 = written after.2) ∧
      (replies (messagesOf stream) c).length = (messagesOf stream).length ∧
      ∀ pair ∈ (messagesOf stream).zip (replies (messagesOf stream) c),
        Answers pair.1 pair.2 := by
  have hmessages : ∀ line ∈ messagesOf stream, IsMessage line := fun _ => isMessage_of_mem
  have hnonempty : ∀ line ∈ messagesOf stream, line ≠ [] := by
    rintro line hline rfl
    exact absurd (hmessages [] hline).nonempty (by decide)
  have hlines := Framer.linesAmong_feedAll_start 0 stream
  refine ⟨?_, length_replies hmessages c, answers_of_mem_zip hmessages c⟩
  obtain ⟨after, hpolls, hwritten⟩ := polls_steady 0 (.start c) .start hlink
  rw [hstream, hlines] at hpolls hwritten
  refine ⟨_, hpolls, ?_, ?_, ?_⟩
  · rw [controller, device_attendAll]
    exact serve_eq_handleAll hnonempty c
  · rw [hwritten]
    exact congrArg (written link ++ framed ·) (served_eq_replies hnonempty c)
  · intro other hstream' hother hwritten'
    obtain ⟨after', hpolls', hwritten''⟩ := polls_steady 0 (.start c) .start hother
    rw [hstream', hlines] at hpolls' hwritten''
    exact ⟨_, hpolls', rfl, by rw [hwritten'', hwritten', hwritten]⟩

/-- Two lines, cut in the middle of the second: an input is read and an unset clock is not. -/
theorem polls_answer_messages_cut :
    let tape : Tape := ⟨[[72, 48, 10, 66], [13, 10]], []⟩
    let c : Controller SoftClock Bench.Pin := .boot .unset (Vector.replicate 4 .start) .standard
    (∀ octets ∈ tape.readings, octets.length ≤ readLimit) ∧
      ∃ after, polls 2 (start c, tape) = .ok () after ∧
        after.2.written = Octets.ofText ">H0\n>B FAIL\n".toList := by
  intro tape c
  have hlink : ∀ octets ∈ tape.readings, octets.length ≤ readLimit := by
    simp [tape, readLimit]
  obtain ⟨⟨after, hpolls, -, hwritten, -⟩, -, -⟩ := polls_answer_messages c tape _ rfl hlink
  refine ⟨hlink, after, hpolls, hwritten.trans ?_⟩
  rfl

end Console

end TimeSwitch.Device
