import TimeSwitch.Proofs.Device.StoredTriggers

/-!
Which entries make settings, and which settings they make. Entries are looked at in order, and what
is wrong with them can be listed entry by entry (`Entries.faults`): they make settings if the list
is empty and are refused for its first member otherwise. What the settings say of a channel or a
signal is what the last entry for it says.
-/

namespace TimeSwitch.Device

open Formula Sequence

/-! ### What is wrong with entries -/

/-- How many indices sources of a kind have, if they have any. -/
def SourceKind.indices? : SourceKind → Option Nat
  | .input => some 4
  | .alarm => some 17
  | .always | .never => none

def DirectionEntry.faults (entry : DirectionEntry) : List SettingsFault :=
  if entry.channel < 4 then [] else [.invalidIndex entry.channel]

def SourceEntry.faults (entry : SourceEntry) : List SettingsFault :=
  (if entry.signal < 16 then [] else [.invalidSignal entry.signal]) ++
    (if ∀ n ∈ entry.kind.indices?, entry.index < n then [] else [.invalidIndex entry.index])

def TriggerEntry.faults (entry : TriggerEntry) : List SettingsFault :=
  (if entry.channel < 4 then [] else [.invalidIndex entry.channel]) ++
    ((if entry.formula.utf8ByteSize ≤ triggerLimit then [] else [.trigger .tooLong]) ++
      (match Expression.parse entry.formula with
        | .ok _ => []
        | .error fault => [.trigger (.formula fault)]))

/-- All that is wrong with entries, in the order in which they are looked at. -/
def Entries.faults (entries : Entries) : List SettingsFault :=
  (if entries.directions.length ≤ 4 ∧ entries.triggers.length ≤ 4 then []
    else [.tooManyEntries]) ++
    (entries.directions.flatMap DirectionEntry.faults ++
      (entries.sources.flatMap SourceEntry.faults ++
        entries.triggers.flatMap TriggerEntry.faults))

/-- Entries with which nothing is wrong. -/
structure Entries.Valid (entries : Entries) : Prop where
  directions_fit : entries.directions.length ≤ 4
  triggers_fit : entries.triggers.length ≤ 4
  direction : ∀ entry ∈ entries.directions, entry.channel < 4
  signal : ∀ entry ∈ entries.sources, entry.signal < 16
  input : ∀ entry ∈ entries.sources, entry.kind = .input → entry.index < 4
  alarm : ∀ entry ∈ entries.sources, entry.kind = .alarm → entry.index < 17
  channel : ∀ entry ∈ entries.triggers, entry.channel < 4
  fits : ∀ entry ∈ entries.triggers, entry.formula.utf8ByteSize ≤ triggerLimit
  parses : ∀ entry ∈ entries.triggers, ∃ e, Expression.parse entry.formula = .ok e

theorem DirectionEntry.faults_eq_nil_iff {entry : DirectionEntry} :
    entry.faults = [] ↔ entry.channel < 4 := by
  simp [faults]

theorem SourceEntry.faults_eq_nil_iff {entry : SourceEntry} : entry.faults = [] ↔
    entry.signal < 16 ∧ (entry.kind = .input → entry.index < 4) ∧
      (entry.kind = .alarm → entry.index < 17) := by
  rw [faults]
  cases entry.kind <;> simp [SourceKind.indices?]

theorem TriggerEntry.faults_eq_nil_iff {entry : TriggerEntry} : entry.faults = [] ↔
    entry.channel < 4 ∧ entry.formula.utf8ByteSize ≤ triggerLimit ∧
      ∃ e, Expression.parse entry.formula = .ok e := by
  rw [faults]
  cases Expression.parse entry.formula <;> simp

theorem Entries.faults_eq_nil_iff {entries : Entries} : entries.faults = [] ↔ entries.Valid := by
  simp only [faults, List.append_eq_nil_iff, List.flatMap_eq_nil_iff, ite_eq_left_iff,
    reduceCtorEq, imp_false, Decidable.not_not, DirectionEntry.faults_eq_nil_iff,
    SourceEntry.faults_eq_nil_iff, TriggerEntry.faults_eq_nil_iff]
  constructor
  · rintro ⟨⟨hdirections, htriggers⟩, hdirection, hsource, htrigger⟩
    exact ⟨hdirections, htriggers, hdirection, fun e he => (hsource e he).1,
      fun e he => (hsource e he).2.1, fun e he => (hsource e he).2.2, fun e he => (htrigger e he).1,
      fun e he => (htrigger e he).2.1, fun e he => (htrigger e he).2.2⟩
  · intro h
    exact ⟨⟨h.directions_fit, h.triggers_fit⟩, h.direction,
      fun e he => ⟨h.signal e he, h.input e he, h.alarm e he⟩,
      fun e he => ⟨h.channel e he, h.fits e he, h.parses e he⟩⟩

/-! ### The first fault -/

/-- Fails for the first of the faults, and succeeds if there is none. -/
def FailsFor {α : Type} (faults : List SettingsFault) : Except SettingsFault α → Prop
  | .ok _ => faults = []
  | .error fault => faults.head? = some fault

namespace FailsFor

variable {α β : Type} {result : Except SettingsFault α} {faults later : List SettingsFault}

theorem bind {f : α → Except SettingsFault β} (h : FailsFor faults result)
    (hnext : ∀ a, result = .ok a → FailsFor later (f a)) :
    FailsFor (faults ++ later) (result >>= f) := by
  cases result with
  | error fault =>
      have hhead : faults.head? = some fault := h
      show (faults ++ later).head? = some fault
      rw [List.head?_append, hhead]
      rfl
  | ok a =>
      obtain rfl : faults = [] := h
      exact hnext a rfl

theorem map {f : α → β} (h : FailsFor faults result) : FailsFor faults (f <$> result) := by
  cases result <;> exact h

/-- Entries are refused for the first fault of the first of them that has one. -/
theorem foldlM {σ : Type} {step : σ → α → Except SettingsFault σ}
    {faultsOf : α → List SettingsFault} (hstep : ∀ s a, FailsFor (faultsOf a) (step s a))
    (entries : List α) (s : σ) :
    FailsFor (entries.flatMap faultsOf) (entries.foldlM step s) := by
  induction entries generalizing s with
  | nil => rfl
  | cons entry entries ih =>
      rw [List.foldlM_cons, List.flatMap_cons]
      exact (hstep s entry).bind fun s' _ => ih s'

theorem exists_ok_iff (h : FailsFor faults result) : (∃ a, result = .ok a) ↔ faults = [] := by
  cases result with
  | error fault =>
      have hhead : faults.head? = some fault := h
      constructor
      · rintro ⟨a, ⟨⟩⟩
      · rintro rfl
        cases hhead
  | ok a => exact ⟨fun _ => h, fun _ => ⟨a, rfl⟩⟩

theorem eq_error_iff (h : FailsFor faults result) {fault : SettingsFault} :
    result = .error fault ↔ faults.head? = some fault := by
  cases result with
  | error fault' =>
      have hhead : faults.head? = some fault' := h
      rw [hhead, Except.error.injEq, Option.some.injEq]
  | ok a =>
      obtain rfl : faults = [] := h
      simp

end FailsFor

namespace Settings

variable {settings after : Settings}

theorem fails_channelOf (n : Nat) :
    FailsFor (if n < 4 then [] else [.invalidIndex n]) (channelOf n) := by
  rw [channelOf, Channel.ofNat?]
  by_cases hn : n < 4
  · rw [dif_pos hn, if_pos hn]
    rfl
  · rw [dif_neg hn, if_neg hn]
    rfl

theorem fails_sourceOf (entry : SourceEntry) : FailsFor
    (if ∀ n ∈ entry.kind.indices?, entry.index < n then [] else [.invalidIndex entry.index])
    (sourceOf entry) := by
  rw [sourceOf]
  cases entry.kind with
  | input =>
      have hchannel := fails_channelOf entry.index
      simpa [SourceKind.indices?] using hchannel.map
  | alarm =>
      simp only [SourceKind.indices?, Option.mem_some_iff, forall_eq', AlarmSlot.ofNat?]
      by_cases hn : entry.index < 17
      · rw [dif_pos hn, if_pos hn]
        rfl
      · rw [dif_neg hn, if_neg hn]
        rfl
  | always | never => simp [SourceKind.indices?, FailsFor]

theorem fails_addDirection (settings : Settings) (entry : DirectionEntry) :
    FailsFor entry.faults (settings.addDirection entry) :=
  (fails_channelOf entry.channel).map

theorem fails_addSource (settings : Settings) (entry : SourceEntry) :
    FailsFor entry.faults (settings.addSource entry) := by
  rw [addSource, SourceEntry.faults, Signal.ofNat?]
  by_cases hn : entry.signal < 16
  · rw [dif_pos hn, if_pos hn]
    exact (fails_sourceOf entry).map
  · rw [dif_neg hn, if_neg hn]
    rfl

theorem fails_addTrigger (settings : Settings) (entry : TriggerEntry) :
    FailsFor entry.faults (settings.addTrigger entry) := by
  refine (fails_channelOf entry.channel).bind fun channel _ => ?_
  rw [triggerFault?]
  by_cases hfits : entry.formula.utf8ByteSize ≤ triggerLimit
  · rw [if_pos hfits, if_neg (Nat.not_lt.2 hfits), List.nil_append]
    cases Expression.parse entry.formula <;> rfl
  · rw [if_neg hfits, if_pos (Nat.not_le.1 hfits)]
    rfl

theorem fails_ofEntries (entries : Entries) : FailsFor entries.faults (ofEntries entries) := by
  rw [ofEntries, Entries.faults]
  by_cases hfit : entries.directions.length ≤ 4 ∧ entries.triggers.length ≤ 4
  · rw [if_pos hfit, if_neg (by omega), List.nil_append]
    exact (FailsFor.foldlM fails_addDirection _ _).bind fun directed _ =>
      (FailsFor.foldlM fails_addSource _ _).bind fun sourced _ =>
        FailsFor.foldlM fails_addTrigger _ _
  · rw [if_neg hfit, if_pos (by omega)]
    rfl

/-! ### The last entry -/

/-- What the last entry for a place says, if there is one, is what the steps leave there. -/
theorem foldlM_findRev? {α β : Type} {step : Settings → α → Except SettingsFault Settings}
    (view : Settings → β) (isFor : α → Bool) (Says : Option α → β → Prop) (latest : Option α)
    (hset : ∀ {s s' a}, step s a = .ok s' → isFor a = true → Says (some a) (view s'))
    (hkeep : ∀ {s s' a}, step s a = .ok s' → isFor a = false → view s' = view s)
    {entries : List α} (hlatest : Says latest (view settings))
    (h : entries.foldlM step settings = .ok after) :
    Says ((entries.findRev? isFor).or latest) (view after) := by
  induction entries generalizing settings latest with
  | nil => exact Except.ok.inj h ▸ hlatest
  | cons entry entries ih =>
      rw [List.foldlM_cons] at h
      obtain ⟨middle, hfirst, hrest⟩ := bind_eq_ok.1 h
      have hmiddle : Says (if isFor entry = true then some entry else latest) (view middle) := by
        cases hfor : isFor entry with
        | true => exact hset hfirst hfor
        | false => exact hkeep hfirst hfor ▸ hlatest
      have hlast := ih _ hmiddle hrest
      rw [List.findRev?]
      cases hlater : entries.findRev? isFor with
      | some later =>
          rw [hlater] at hlast
          exact hlast
      | none =>
          rw [hlater] at hlast
          cases hfor : isFor entry with
          | true =>
              rw [hfor] at hlast
              exact hlast
          | false =>
              rw [hfor] at hlast
              exact hlast

/-- The source that a kind and an index stand for. Where there is nothing to index, any index will
do. -/
inductive Names : SourceKind → Nat → Source → Prop
  | input (channel : Channel) : Names .input channel (.input channel)
  | alarm (slot : AlarmSlot) : Names .alarm slot (.alarm slot)
  | always (index : Nat) : Names .always index .always
  | never (index : Nat) : Names .never index .never

/-- An entry that says of a signal what it is without one: the first four signals are the channels,
the others the first twelve alarms. -/
def standardEntry (s : Signal) : SourceEntry :=
  if s.val < 4 then ⟨s, .input, s⟩ else ⟨s, .alarm, s - 4⟩

/-- The settings say of each channel and signal what the last entry for it says, and otherwise what
holds without entries. -/
structure GoBy (entries : Entries) (settings : Settings) : Prop where
  direction : ∀ channel : Channel, channel.valueIn settings.directions =
    ((entries.directions.findRev? (·.channel == channel.val)).map (·.direction)).getD .input
  source : ∀ s : Signal,
    let entry := (entries.sources.findRev? (·.signal == s.val)).getD (standardEntry s)
    Names entry.kind entry.index (settings.sources.get s)
  trigger : ∀ channel : Channel, settings.triggers.get? channel =
    (entries.triggers.findRev? (·.channel == channel.val)).map (·.formula)

theorem channelOf_eq_ok {n : Nat} {channel : Channel} :
    channelOf n = .ok channel ↔ n = channel.val := by
  rw [channelOf, Channel.ofNat?]
  by_cases hn : n < 4
  · simp [hn, Fin.ext_iff]
  · have hchannel := channel.isLt
    simp only [dif_neg hn, reduceCtorEq, false_iff]
    omega

theorem addDirection_eq_ok {entry : DirectionEntry} : settings.addDirection entry = .ok after ↔
    ∃ channel : Channel, entry.channel = channel.val ∧
      { settings with directions := channel.update entry.direction settings.directions } =
        after := by
  rw [addDirection, bind_eq_ok]
  simp only [channelOf_eq_ok, pure, Except.pure, Except.ok.injEq]

theorem names_of_sourceOf {entry : SourceEntry} {source : Source}
    (h : sourceOf entry = .ok source) : Names entry.kind entry.index source := by
  obtain ⟨signal, kind, index⟩ := entry
  cases kind with
  | input =>
      obtain ⟨channel, hchannel, hsource⟩ := bind_eq_ok.1 (h : channelOf index >>= _ = _)
      obtain rfl := channelOf_eq_ok.1 hchannel
      exact Except.ok.inj hsource ▸ .input channel
  | alarm =>
      rw [sourceOf, AlarmSlot.ofNat?] at h
      by_cases hn : index < 17
      · rw [dif_pos hn] at h
        exact Except.ok.inj h ▸ .alarm ⟨index, hn⟩
      · rw [dif_neg hn] at h
        cases h
  | always => exact Except.ok.inj h ▸ .always index
  | never => exact Except.ok.inj h ▸ .never index

theorem exists_of_addSource {entry : SourceEntry} (h : settings.addSource entry = .ok after) :
    ∃ (s : Signal) (source : Source), entry.signal = s.val ∧ Names entry.kind entry.index source ∧
      { settings with sources := settings.sources.set s source } = after := by
  rw [addSource, Signal.ofNat?] at h
  by_cases hn : entry.signal < 16
  · rw [dif_pos hn] at h
    obtain ⟨source, hsource, h⟩ := bind_eq_ok.1 h
    exact ⟨⟨entry.signal, hn⟩, source, rfl, names_of_sourceOf hsource, Except.ok.inj h⟩
  · rw [dif_neg hn] at h
    cases h

theorem exists_of_addTrigger {entry : TriggerEntry} (h : settings.addTrigger entry = .ok after) :
    ∃ channel : Channel, entry.channel = channel.val ∧
      { settings with triggers := settings.triggers.put channel entry.formula } = after := by
  obtain ⟨channel, hchannel, -, rfl⟩ := addTrigger_eq_ok.1 h
  refine ⟨channel, channelOf_eq_ok.1 ?_, rfl⟩
  rw [channelOf, hchannel]

/-- What every entry leaves as it was, all of them leave as it was. -/
theorem foldlM_same {α β : Type} {step : Settings → α → Except SettingsFault Settings}
    {view : Settings → β} (hstep : ∀ {s s' a}, step s a = .ok s' → view s' = view s)
    {entries : List α} (h : entries.foldlM step settings = .ok after) :
    view after = view settings := by
  refine foldlM_keeps (P := fun s => view s = view settings) ?_ rfl h
  intro s s' a hs hnext
  exact (hstep hnext).trans hs

theorem direction_foldlM {entries : List DirectionEntry}
    (h : entries.foldlM addDirection settings = .ok after) (channel : Channel)
    (hinput : channel.valueIn settings.directions = .input) :
    channel.valueIn after.directions =
      ((entries.findRev? (·.channel == channel.val)).map (·.direction)).getD .input := by
  have hlast := foldlM_findRev? (fun s => channel.valueIn s.directions)
    (fun entry : DirectionEntry => entry.channel == channel.val)
    (fun last direction => direction = (last.map (·.direction)).getD .input) none ?_ ?_ hinput h
  · rwa [Option.or_none] at hlast
  · intro s s' entry hstep hfor
    obtain ⟨other, hother, rfl⟩ := addDirection_eq_ok.1 hstep
    obtain rfl : other = channel := Fin.ext (hother.symm.trans (beq_iff_eq.1 hfor))
    exact Channel.valueIn_update_self ..
  · intro s s' entry hstep hfor
    obtain ⟨other, hother, rfl⟩ := addDirection_eq_ok.1 hstep
    refine Channel.valueIn_update_of_ne ?_
    rintro rfl
    simp [hother] at hfor

theorem source_foldlM {entries : List SourceEntry}
    (h : entries.foldlM addSource settings = .ok after) (s : Signal)
    (hstandard : Names (standardEntry s).kind (standardEntry s).index (settings.sources.get s)) :
    let entry := (entries.findRev? (·.signal == s.val)).getD (standardEntry s)
    Names entry.kind entry.index (after.sources.get s) := by
  have hlast := foldlM_findRev? (fun settings => settings.sources.get s)
    (fun entry : SourceEntry => entry.signal == s.val)
    (fun last source =>
      Names (last.getD (standardEntry s)).kind (last.getD (standardEntry s)).index source)
    none ?_ ?_ hstandard h
  · rwa [Option.or_none] at hlast
  · intro before middle entry hstep hfor
    obtain ⟨other, source, hother, hnames, rfl⟩ := exists_of_addSource hstep
    obtain rfl : other = s := Fin.ext (hother.symm.trans (beq_iff_eq.1 hfor))
    rw [SourceMap.get_set_self]
    exact hnames
  · intro before middle entry hstep hfor
    obtain ⟨other, source, hother, -, rfl⟩ := exists_of_addSource hstep
    refine SourceMap.get_set_of_ne ?_
    rintro rfl
    simp [hother] at hfor

theorem trigger_foldlM {entries : List TriggerEntry}
    (h : entries.foldlM addTrigger settings = .ok after) (channel : Channel)
    (hnone : settings.triggers.get? channel = none) :
    after.triggers.get? channel =
      (entries.findRev? (·.channel == channel.val)).map (·.formula) := by
  have hlast := foldlM_findRev? (fun s => s.triggers.get? channel)
    (fun entry : TriggerEntry => entry.channel == channel.val)
    (fun last text => text = last.map (·.formula)) none ?_ ?_ hnone h
  · rwa [Option.or_none] at hlast
  · intro s s' entry hstep hfor
    obtain ⟨other, hother, rfl⟩ := exists_of_addTrigger hstep
    obtain rfl : other = channel := Fin.ext (hother.symm.trans (beq_iff_eq.1 hfor))
    exact Slots.get?_put_self ..
  · intro s s' entry hstep hfor
    obtain ⟨other, hother, rfl⟩ := exists_of_addTrigger hstep
    refine Slots.get?_put_of_ne ?_
    rintro rfl
    simp [hother] at hfor

theorem names_standard (s : Signal) :
    Names (standardEntry s).kind (standardEntry s).index (Settings.standard.sources.get s) := by
  have hs := s.isLt
  have hget : Settings.standard.sources.get s =
      if h : s.val < 4 then .input ⟨s.val, h⟩ else .alarm ⟨s.val - 4, by omega⟩ := by
    simp [Settings.standard, SourceMap.standard, SourceMap.get]
  rw [hget, standardEntry]
  by_cases hfirst : s.val < 4
  · rw [dif_pos hfirst, if_pos hfirst]
    exact .input ⟨s.val, hfirst⟩
  · rw [dif_neg hfirst, if_neg hfirst]
    exact .alarm ⟨s.val - 4, by omega⟩

theorem goBy_of_ofEntries {entries : Entries} (h : ofEntries entries = .ok settings) :
    GoBy entries settings := by
  rw [ofEntries] at h
  split at h
  · cases h
  · obtain ⟨directed, hdirections, h⟩ := bind_eq_ok.1 h
    obtain ⟨sourced, hsources, htriggers⟩ := bind_eq_ok.1 h
    -- Each of the three lists changes its own part of the settings only.
    have hdirected : directed.sources = Settings.standard.sources ∧
        directed.triggers = Settings.standard.triggers := by
      refine ⟨foldlM_same (fun hstep => ?_) hdirections, foldlM_same triggers_of_addDirection
        hdirections⟩
      obtain ⟨channel, -, rfl⟩ := addDirection_eq_ok.1 hstep
      rfl
    have hsourced : sourced.directions = directed.directions ∧
        sourced.triggers = directed.triggers := by
      refine ⟨foldlM_same (fun hstep => ?_) hsources, foldlM_same triggers_of_addSource hsources⟩
      obtain ⟨s, source, -, -, rfl⟩ := exists_of_addSource hstep
      rfl
    have hsettings : settings.directions = sourced.directions ∧
        settings.sources = sourced.sources := by
      constructor <;> refine foldlM_same (fun hstep => ?_) htriggers
      all_goals
        obtain ⟨channel, -, rfl⟩ := exists_of_addTrigger hstep
        rfl
    refine ⟨fun channel => ?_, fun s => ?_, fun channel => ?_⟩
    · rw [hsettings.1, hsourced.1]
      exact direction_foldlM hdirections channel (Channel.valueIn_replicate ..)
    · rw [hsettings.2]
      refine source_foldlM hsources s ?_
      rw [hdirected.1]
      exact names_standard s
    · refine trigger_foldlM htriggers channel ?_
      rw [hsourced.2, hdirected.2]
      exact Slots.get?_empty channel

/-! ### One session for all triggers -/

/-- As `addTrigger`, with the text parsed in a session that other texts may have gone through. What
parses is stored in a slot, which could still find it too long. -/
def addTriggerIn (state : Settings × Session) (entry : TriggerEntry) :
    Except SettingsFault (Settings × Session) := do
  let channel ← channelOf entry.channel
  if triggerLimit < entry.formula.utf8ByteSize then throw (.trigger .tooLong)
  let session := state.2.parse entry.formula
  match session.last with
  | some (.error fault) => throw (.trigger (.formula fault))
  | _ => match state.1.triggers.store? channel entry.formula with
    | some triggers => return ({ state.1 with triggers }, session)
    | none => throw (.trigger .tooLong)

/-- As `ofEntries`, with all triggers parsed in one session. -/
def ofEntriesIn (session : Session) (entries : Entries) : Except SettingsFault Settings := do
  if 4 < entries.directions.length ∨ 4 < entries.triggers.length then throw .tooManyEntries
  let settings ← entries.directions.foldlM addDirection .standard
  let settings ← entries.sources.foldlM addSource settings
  Prod.fst <$> entries.triggers.foldlM addTriggerIn (settings, session)

theorem addTriggerIn_eq (settings : Settings) (session : Session) (entry : TriggerEntry) :
    ∃ session', addTriggerIn (settings, session) entry =
      (fun settings => (settings, session')) <$> settings.addTrigger entry := by
  refine ⟨session.parse entry.formula, ?_⟩
  rw [addTriggerIn, addTrigger, triggerFault?]
  cases channelOf entry.channel with
  | error fault => rfl
  | ok channel =>
      rw [ok_bind, ok_bind]
      by_cases hfits : entry.formula.utf8ByteSize ≤ triggerLimit
      · rw [if_neg (Nat.not_lt.2 hfits), if_neg (Nat.not_lt.2 hfits)]
        dsimp only
        rw [Session.last_parse, Triggers.store?, if_pos hfits]
        cases Expression.parse entry.formula <;> rfl
      · rw [if_pos (Nat.not_le.1 hfits), if_pos (Nat.not_le.1 hfits)]
        rfl

theorem foldlM_addTriggerIn (entries : List TriggerEntry) (settings : Settings)
    (session : Session) : Prod.fst <$> entries.foldlM addTriggerIn (settings, session) =
      entries.foldlM addTrigger settings := by
  induction entries generalizing settings session with
  | nil => rfl
  | cons entry entries ih =>
      obtain ⟨session', hfirst⟩ := addTriggerIn_eq settings session entry
      rw [List.foldlM_cons, List.foldlM_cons, hfirst]
      cases settings.addTrigger entry with
      | error fault => rfl
      | ok settings => exact ih settings session'

theorem ofEntriesIn_eq (session : Session) (entries : Entries) :
    ofEntriesIn session entries = ofEntries entries := by
  simp only [ofEntriesIn, ofEntries, foldlM_addTriggerIn]

/-- Entries make settings if and only if nothing is wrong with them, and then each channel and each
signal is what the last entry for it says. Otherwise they are refused for what is found wrong first,
looking at their numbers and then at one entry after the other. It makes no difference whether all
triggers go through one session of parsing, nor what that session was used for before. -/
theorem entries_make_settings (entries : Entries) :
    ((∃ settings, ofEntries entries = .ok settings) ↔ entries.Valid) ∧
      (∀ settings, ofEntries entries = .ok settings → GoBy entries settings) ∧
      (∀ fault, ofEntries entries = .error fault ↔ entries.faults.head? = some fault) ∧
      ∀ session, ofEntriesIn session entries = ofEntries entries := by
  have hfails := fails_ofEntries entries
  refine ⟨?_, fun _ => goBy_of_ofEntries, fun _ => hfails.eq_error_iff, fun session =>
    ofEntriesIn_eq session entries⟩
  rw [hfails.exists_ok_iff, Entries.faults_eq_nil_iff]

/-- The signal of the first source is looked at before its index, and both before the triggers. -/
example : ofEntries ⟨[⟨3, .output⟩], [⟨16, .input, 9⟩], [⟨4, ""⟩]⟩ =
    .error (.invalidSignal 16) := by
  decide

end Settings

end TimeSwitch.Device
