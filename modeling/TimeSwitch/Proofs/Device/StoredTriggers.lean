import TimeSwitch.Proofs.Device.Places
import TimeSwitch.Proofs.Formula.ShortTexts
import TimeSwitch.Proofs.Formula.Storing
import TimeSwitch.Proofs.Wire.Decoding

/-!
What is stored as a trigger. Settings and requests let the same texts pass: those that fit and are
sentences, since a text that fits is too short for the limits of the parser to matter. No other way
leads into a slot, so whatever has happened, every trigger that is stored parses.
-/

namespace TimeSwitch.Device

open Formula Octets Sequence Wire

/-! ### Texts that are let pass -/

/-- A text that may be stored as a trigger. -/
structure IsTrigger (text : String) : Prop where
  fits : text.utf8ByteSize ≤ triggerLimit
  sentence : ∃ s, IsSentence text s

/-- A text that fits its slot leaves levels and nodes to spare. -/
theorem spare_of_fits {text : String} (h : text.utf8ByteSize ≤ triggerLimit) :
    3 * text.utf8ByteSize + 2 ≤ nodeLimit := by
  simp only [triggerLimit, nodeLimit] at *
  omega

theorem exists_parse_iff {text : String} (h : text.utf8ByteSize ≤ triggerLimit) :
    (∃ e, Expression.parse text = .ok e) ↔ IsTrigger text := by
  rw [exists_parse_iff_of_short (spare_of_fits h)]
  exact ⟨fun hsentence => ⟨h, hsentence⟩, IsTrigger.sentence⟩

/-- A text is at fault, as settings see it, if it is none. -/
theorem triggerFault?_eq_none_iff {text : String} : triggerFault? text = none ↔ IsTrigger text := by
  rw [triggerFault?]
  split
  · rename_i hlong
    simp only [reduceCtorEq, false_iff]
    exact fun h => Nat.not_le.2 hlong h.fits
  · rename_i hfits
    rw [← exists_parse_iff (Nat.not_lt.1 hfits)]
    cases Expression.parse text <;> simp

/-! ### Settings -/

/-- Every trigger that is stored was let pass. -/
def Triggers.Checked (triggers : Triggers) : Prop :=
  ∀ channel text, triggers.get? channel = some text → IsTrigger text

theorem checked_empty : Triggers.Checked .empty := by
  intro channel text h
  rw [Slots.get?_empty] at h
  cases h

theorem Triggers.Checked.put {triggers : Triggers} (h : triggers.Checked) (channel : Channel)
    {text : String} (htext : IsTrigger text) : Triggers.Checked (triggers.put channel text) := by
  intro other text' hget
  by_cases heq : channel = other
  · subst heq
    rw [Slots.get?_put_self] at hget
    exact Option.some.inj hget ▸ htext
  · rw [Slots.get?_put_of_ne heq] at hget
    exact h other text' hget

theorem Triggers.Checked.clear {triggers : Triggers} (h : triggers.Checked) (channel : Channel) :
    Triggers.Checked (triggers.clear channel) := by
  intro other text' hget
  by_cases heq : channel = other
  · subst heq
    rw [Slots.get?_clear_self] at hget
    cases hget
  · rw [Slots.get?_clear_of_ne heq] at hget
    exact h other text' hget

namespace Settings

variable {settings after : Settings}

theorem ofNat?_channel (channel : Channel) : Channel.ofNat? channel = some channel := by
  simp [Channel.ofNat?]

theorem addTrigger_eq_ok {entry : TriggerEntry} :
    settings.addTrigger entry = .ok after ↔ ∃ channel, Channel.ofNat? entry.channel = some channel ∧
      IsTrigger entry.formula ∧
        after = { settings with triggers := settings.triggers.put channel entry.formula } := by
  rw [addTrigger, channelOf, ← triggerFault?_eq_none_iff]
  cases Channel.ofNat? entry.channel with
  | none => simp [error_bind]
  | some channel =>
      rw [ok_bind]
      cases triggerFault? entry.formula with
      | none => simp [pure, Except.pure, eq_comm]
      | some fault => simp [throw, throwThe, MonadExceptOf.throw]

theorem triggers_of_addDirection {entry : DirectionEntry}
    (h : settings.addDirection entry = .ok after) : after.triggers = settings.triggers := by
  obtain ⟨channel, -, h⟩ := bind_eq_ok.1 h
  exact Except.ok.inj h ▸ rfl

theorem triggers_of_addSource {entry : SourceEntry} (h : settings.addSource entry = .ok after) :
    after.triggers = settings.triggers := by
  rw [addSource] at h
  cases hsignal : Signal.ofNat? entry.signal with
  | none =>
      rw [hsignal] at h
      cases h
  | some s =>
      rw [hsignal] at h
      obtain ⟨source, -, h⟩ := bind_eq_ok.1 h
      exact Except.ok.inj h ▸ rfl

/-- The settings that entries make have only triggers that were let pass. -/
theorem checked_of_ofEntries {entries : Entries} (h : ofEntries entries = .ok settings) :
    settings.triggers.Checked := by
  rw [ofEntries] at h
  split at h
  · cases h
  · obtain ⟨directed, hdirections, h⟩ := bind_eq_ok.1 h
    obtain ⟨sourced, hsources, htriggers⟩ := bind_eq_ok.1 h
    have hdirected : directed.triggers.Checked := by
      refine foldlM_keeps (P := fun s : Settings => s.triggers.Checked) ?_ checked_empty hdirections
      intro s s' entry hs hstep
      rwa [triggers_of_addDirection hstep]
    have hsourced : sourced.triggers.Checked := by
      refine foldlM_keeps (P := fun s : Settings => s.triggers.Checked) ?_ hdirected hsources
      intro s s' entry hs hstep
      rwa [triggers_of_addSource hstep]
    refine foldlM_keeps (P := fun s : Settings => s.triggers.Checked) ?_ hsourced htriggers
    intro s s' entry hs hstep
    obtain ⟨channel, -, htext, rfl⟩ := addTrigger_eq_ok.1 hstep
    exact hs.put channel htext

end Settings

namespace Controller

variable {κ π : Type}

/-! ### Requests for a trigger -/

/-- A trigger is set if its text passes, word for word, and otherwise none is changed. -/
theorem exists_setTrigger_eq (channel : Channel) (text : String) (c : Controller κ π) :
    (IsTrigger text ∧ ∃ session, setTrigger channel text c =
        .ok () { c with triggers := c.triggers.put channel text, session }) ∨
      (¬IsTrigger text ∧ ∃ session, setTrigger channel text c =
        .error .rejected { c with session }) := by
  rw [setTrigger_eq]
  split_ifs with hlong hparse
  · exact .inr ⟨fun h => Nat.not_le.2 hlong h.fits, c.session, rfl⟩
  · have htext := (exists_parse_iff (Nat.not_lt.1 hlong)).1 (Session.succeeded_parse.1 hparse)
    exact .inl ⟨htext, _, rfl⟩
  · refine .inr ⟨fun h => hparse ?_, _, rfl⟩
    exact Session.succeeded_parse.2 ((exists_parse_iff (Nat.not_lt.1 hlong)).2 h)

section SetTrigger

variable {channel : Channel} {text : String} {c after : Controller κ π}

theorem setTrigger_accepts_iff :
    (∃ after, setTrigger channel text c = .ok () after) ↔ IsTrigger text := by
  obtain ⟨htext, session, heq⟩ | ⟨htext, session, heq⟩ := exists_setTrigger_eq channel text c
  · exact ⟨fun _ => htext, fun _ => ⟨_, heq⟩⟩
  · refine ⟨fun ⟨after, h⟩ => ?_, fun h => absurd h htext⟩
    rw [heq] at h
    cases h

/-- Settings and requests let the same texts pass. -/
theorem setTrigger_accepts_iff_addTrigger {settings : Settings} :
    (∃ after, setTrigger channel text c = .ok () after) ↔
      ∃ after, settings.addTrigger ⟨channel, text⟩ = .ok after := by
  rw [setTrigger_accepts_iff]
  constructor
  · exact fun htext =>
      ⟨_, Settings.addTrigger_eq_ok.2 ⟨channel, Settings.ofNat?_channel channel, htext, rfl⟩⟩
  · rintro ⟨after, hafter⟩
    obtain ⟨-, -, htext, -⟩ := Settings.addTrigger_eq_ok.1 hafter
    exact htext

theorem triggers_of_setTrigger_eq_ok (h : setTrigger channel text c = .ok () after) :
    after.triggers = c.triggers.put channel text := by
  obtain ⟨-, session, heq⟩ | ⟨-, session, heq⟩ := exists_setTrigger_eq channel text c
  · rw [heq] at h
    obtain ⟨-, rfl⟩ := EStateM.Result.ok.inj h
    rfl
  · rw [heq] at h
    cases h

theorem triggers_of_setTrigger_eq_error {refusal : Refusal}
    (h : setTrigger channel text c = .error refusal after) : after.triggers = c.triggers := by
  obtain ⟨-, session, heq⟩ | ⟨-, session, heq⟩ := exists_setTrigger_eq channel text c
  · rw [heq] at h
    cases h
  · rw [heq] at h
    obtain ⟨-, rfl⟩ := EStateM.Result.error.inj h
    rfl

end SetTrigger

/-! ### Whatever happens -/

/-- The controller goes by these settings, and every trigger that it holds was let pass. -/
structure WellArmed (settings : Settings) (c : Controller κ π) : Prop where
  settings : c.settings = settings
  triggers : c.triggers.Checked

variable {settings : Settings} {c after : Controller κ π}

theorem WellArmed.of_same (h : WellArmed settings c) (hsettings : after.settings = c.settings)
    (htriggers : after.triggers = c.triggers) : WellArmed settings after :=
  ⟨hsettings.trans h.settings, htriggers ▸ h.triggers⟩

theorem WellArmed.of_onlyAt {place : Place} (h : WellArmed settings c)
    (honly : OnlyAt place c after) (hplace : ∀ channel, place ≠ .trigger channel) :
    WellArmed settings after := by
  refine h.of_same honly.settings (Slots.ext_get? fun channel => ?_)
  exact Held.trigger.inj (honly.held (.trigger channel) (hplace channel).symm)

variable [Pin π]

theorem wellArmed_boot (clock : κ) (pins : Vector π 4) (h : settings.triggers.Checked) :
    WellArmed settings (boot clock pins settings) := by
  obtain ⟨pins', panel, hboot⟩ := exists_boot_eq clock pins settings
  rw [hboot]
  exact ⟨rfl, h⟩

variable [Clock κ]

theorem wellArmed_tick (h : WellArmed settings c) : WellArmed settings (stateOf (tick c)) := by
  rw [tick_eq]
  cases Clock.now c.clock with
  | error fault clock => exact h.of_same rfl rfl
  | ok now clock =>
      have hdrives := drives_driveChannels (c.moveTo now clock).snapshot Channel.nodup_all
        (c.moveTo now clock)
      exact h.of_same hdrives.frame.settings hdrives.frame.triggers

theorem wellArmed_perform (hsettings : settings.triggers.Checked) (h : WellArmed settings c)
    (request : Request) : WellArmed settings (stateOf (handlers.perform request c)) := by
  cases request with
  | setTrigger channel text =>
      rw [perform_setTrigger]
      obtain ⟨htext, session, heq⟩ | ⟨-, session, heq⟩ := exists_setTrigger_eq channel text c
      · rw [heq]
        exact ⟨h.settings, h.triggers.put channel htext⟩
      · rw [heq]
        exact h.of_same rfl rfl
  | clearTrigger channel => exact ⟨h.settings, h.triggers.clear channel⟩
  | reset =>
      obtain ⟨pins, panel, hreset⟩ := exists_reset_eq c
      change WellArmed settings c.reset
      rw [hreset]
      exact ⟨h.settings, h.settings ▸ hsettings⟩
  | setClock | readClock | setAlarm | clearAlarm | setDirection | readChannel =>
      exact h.of_onlyAt (onlyAt_perform rfl c) nofun

theorem wellArmed_act (hsettings : settings.triggers.Checked) (h : WellArmed settings c)
    (event : Event κ π) : WellArmed settings (event.act c) := by
  cases event with
  | line tag body =>
      obtain ⟨reply, hhandled | ⟨request, hhandled⟩⟩ := exists_handled_eq c tag body
      · rw [Event.act, hhandled]
        exact h.of_same rfl rfl
      · rw [Event.act, hhandled]
        exact (wellArmed_perform hsettings h request).of_same rfl rfl
  | request r => exact wellArmed_perform hsettings h r
  | tick => exact wellArmed_tick h
  | take | clock change | pin channel change => exact h.of_same rfl rfl

theorem wellArmed_run (hsettings : settings.triggers.Checked) (h : WellArmed settings c)
    (events : List (Event κ π)) : WellArmed settings (run events c) := by
  induction events generalizing c with
  | nil => exact h
  | cons event events ih => exact ih (wellArmed_act hsettings h event)

/-! ### Lines that set a trigger -/

/-- Behind the letter, the channel and the blank, no more is left of a line than fits a slot. -/
theorem fits_of_decode {line : Octets} {channel : Channel} {text : String}
    (h : Request.decode line = .ok (.setTrigger channel text)) :
    (∃ body, line = 69 :: body) ∧ text.utf8ByteSize ≤ triggerLimit := by
  have hmessage := isMessage_of_decode h
  have hwritten := (decode_of_isMessage hmessage).1 h
  have hline := ofText_toText hmessage.lt
  generalize toText line = written at hwritten hline
  cases hwritten with
  | @setTrigger _ formula _ =>
      rw [ofText_cons_of_ascii (show 'E'.toNat < 128 by decide), ofText_append,
        ofText_cons_of_ascii (show ' '.toNat < 128 by decide)] at hline
      refine ⟨⟨_, hline.symm⟩, ?_⟩
      have hlength := hmessage.fits
      rw [← hline] at hlength
      simp only [List.length_cons, List.length_append, lineLimit] at hlength
      rw [utf8ByteSize_ofList]
      show (ofText formula).length ≤ 30
      omega

theorem outbox_handled_setTrigger {line : Octets} {channel : Channel} {text : String}
    (h : Request.decode line = .ok (.setTrigger channel text)) (c : Controller κ π) :
    ((∃ s, IsSentence text s) ∧ (handled line c).outbox = some (ofText ">E OK".toList)) ∨
      (¬(∃ s, IsSentence text s) ∧
        (handled line c).outbox = some (ofText ">E FAIL".toList)) := by
  obtain ⟨⟨body, rfl⟩, hfits⟩ := fits_of_decode h
  rw [handled_of_ok h, perform_setTrigger]
  obtain ⟨htext, session, heq⟩ | ⟨htext, session, heq⟩ := exists_setTrigger_eq channel text c
  · rw [heq]
    exact .inl ⟨htext.sentence, rfl⟩
  · rw [heq]
    exact .inr ⟨fun hsentence => htext ⟨hfits, hsentence⟩, rfl⟩

/-- Whatever has happened, every trigger that is stored fits and parses. A text is stored on
request if and only if settings let it pass, which is the case if it fits and is a sentence: it is
never refused for want of nodes. A text that comes in a line always fits. -/
theorem stored_triggers_parse {settings : Settings}
    (hsettings : settings = .standard ∨ ∃ entries, Settings.ofEntries entries = .ok settings)
    (clock : κ) (pins : Vector π 4) (events : List (Event κ π)) :
    (∀ channel text, (run events (boot clock pins settings)).triggers.get? channel = some text →
      text.utf8ByteSize ≤ triggerLimit ∧ ∀ session : Session,
        (session.parse text).succeeded = true) ∧
      (∀ (c : Controller κ π) (others : Settings) (channel : Channel) (text : String),
        ((∃ after, setTrigger channel text c = .ok () after) ↔
          ∃ after, others.addTrigger ⟨channel, text⟩ = .ok after) ∧
        ((∃ after, setTrigger channel text c = .ok () after) ↔
          text.utf8ByteSize ≤ triggerLimit ∧ ∃ s, IsSentence text s) ∧
        (text.utf8ByteSize ≤ triggerLimit → Expression.parse text ≠ .error .tooManyNodes) ∧
        (∀ after, setTrigger channel text c = .ok () after →
          after.triggers = c.triggers.put channel text) ∧
        ∀ refusal after, setTrigger channel text c = .error refusal after →
          after.triggers = c.triggers) ∧
      ∀ (c : Controller κ π) (line : Octets) (channel : Channel) (text : String),
        Request.decode line = .ok (.setTrigger channel text) →
          ((handled line c).outbox = some (ofText ">E OK".toList) ↔
            ∃ s, IsSentence text s) ∧
          ((handled line c).outbox = some (ofText ">E FAIL".toList) ↔
            ¬∃ s, IsSentence text s) := by
  refine ⟨?_, ?_, ?_⟩
  · intro channel text hget
    have hchecked : settings.triggers.Checked := by
      obtain rfl | ⟨entries, hentries⟩ := hsettings
      · exact checked_empty
      · exact Settings.checked_of_ofEntries hentries
    have harmed := wellArmed_run hchecked (wellArmed_boot clock pins hchecked) events
    have htext := harmed.triggers channel text hget
    have hparses := (exists_parse_iff htext.fits).2 htext
    exact ⟨htext.fits, fun session => Session.succeeded_parse.2 hparses⟩
  · intro c others channel text
    have haccepts : (∃ after, setTrigger channel text c = .ok () after) ↔
        text.utf8ByteSize ≤ triggerLimit ∧ ∃ s, IsSentence text s :=
      setTrigger_accepts_iff.trans ⟨fun h => ⟨h.fits, h.sentence⟩, fun h => ⟨h.1, h.2⟩⟩
    refine ⟨setTrigger_accepts_iff_addTrigger, haccepts, ?_, ?_, ?_⟩
    · exact fun hfits => parse_ne_tooManyNodes_of_short (spare_of_fits hfits)
    · exact fun after hafter => triggers_of_setTrigger_eq_ok hafter
    · exact fun refusal after hafter => triggers_of_setTrigger_eq_error hafter
  · intro c line channel text hdecode
    have hne : ofText ">E OK".toList ≠ ofText ">E FAIL".toList := by decide
    obtain ⟨hsentence, hreply⟩ | ⟨hsentence, hreply⟩ := outbox_handled_setTrigger hdecode c
    · rw [hreply]
      exact ⟨⟨fun _ => hsentence, fun _ => rfl⟩, fun heq => absurd (Option.some.inj heq) hne,
        fun hnone => absurd hsentence hnone⟩
    · rw [hreply]
      exact ⟨⟨fun heq => absurd (Option.some.inj heq).symm hne, fun hsome => absurd hsome hsentence⟩,
        fun _ => hsentence, fun _ => rfl⟩

/-- The first line has no sentence for the trigger of the settings, so that one stays. -/
theorem stored_triggers_parse_refused :
    let entries : Entries := ⟨[⟨0, .output⟩], [⟨3, .alarm, 5⟩], [⟨2, "1"⟩, ⟨2, "3 & !0"⟩]⟩
    ∃ settings, Settings.ofEntries entries = .ok settings ∧
      let events : List (Event SoftClock Bench.Pin) :=
        [.line 69 (ofText "2 3 & (".toList), .tick, .line 69 (ofText "0 1|(2&T)".toList)]
      let c := run events (boot .unset (Vector.replicate 4 .start) settings)
      c.triggers.toList = [some "1|(2&T)", none, some "3 & !0", none] ∧
      ∀ channel text, c.triggers.get? channel = some text →
        text.utf8ByteSize ≤ triggerLimit ∧ ∀ session : Session,
          (session.parse text).succeeded = true := by
  intro entries
  let settings : Settings :=
    { directions := #v[.output, .input, .input, .input]
      sources := SourceMap.standard.set 3 (.alarm 5)
      triggers := Slots.put .empty 2 "3 & !0" }
  have hentries : Settings.ofEntries entries = .ok settings := by
    simp only [settings, entries]
    cbv
  refine ⟨settings, hentries, ?_, ?_⟩
  · simp only [settings]
    cbv
  · exact (stored_triggers_parse (.inr ⟨entries, hentries⟩) _ _ _).1

end Controller

end TimeSwitch.Device
