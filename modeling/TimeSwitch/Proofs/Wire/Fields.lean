import TimeSwitch.Proofs.Wire.Reading
import TimeSwitch.Proofs.Wire.Written

/-!
What the fields of each request have to say for its reader to succeed. Bodies are ASCII, so that
a body and its text determine each other.
-/

namespace TimeSwitch.Wire

open Octets Sequence

/-! ### Texts as octets -/

theorem ofText_blank (text : List Char) : ofText (' ' :: text) = [32] ++ ofText text :=
  ofText_cons_of_ascii (by decide)

theorem ofText_dash (text : List Char) : ofText ('-' :: text) = [45] ++ ofText text :=
  ofText_cons_of_ascii (by decide)

theorem ofText_colon (text : List Char) : ofText (':' :: text) = [58] ++ ofText text :=
  ofText_cons_of_ascii (by decide)

theorem ofText_timeWritten (hour minute : Nat) :
    ofText (' ' :: (Decimal.padded 2 hour ++ ':' :: Decimal.padded 2 minute)) =
      [32] ++ (ofText (Decimal.padded 2 hour) ++ ([58] ++ ofText (Decimal.padded 2 minute))) := by
  rw [ofText_blank, ofText_append, ofText_colon]

theorem ofText_alarm (slot count : Nat) (period : Period) (text : List Char) :
    ofText (Decimal.padded 2 slot ++ ' ' :: (Decimal.padded 2 count ++ period.letter :: text)) =
      ofText (Decimal.padded 2 slot) ++ ([32] ++ (ofText (Decimal.padded 2 count) ++
        (ofText [period.letter] ++ ofText text))) := by
  have hletter := ofText_append [period.letter] text
  rw [List.singleton_append] at hletter
  rw [ofText_append, ofText_blank, ofText_append, hletter]

theorem ofText_channel (channel : Nat) (word : List Char) :
    ofText (Decimal.numeral channel ++ ' ' :: word) =
      ofText (Decimal.numeral channel) ++ ([32] ++ ofText word) := by
  rw [ofText_append, ofText_blank]

theorem ofText_render (t : CivilTime) : ofText t.render =
    ofText t.weekday.abbreviation ++ ([32] ++ (ofText (Decimal.padded 2 t.year) ++ ([45] ++
      (ofText (Decimal.padded 2 (t.month + 1)) ++ ([45] ++ (ofText (Decimal.padded 2 t.day) ++
      ([32] ++ (ofText (Decimal.padded 2 t.hour) ++ ([58] ++ (ofText (Decimal.padded 2 t.minute) ++
      ([58] ++ ofText (Decimal.padded 2 t.second)))))))))))) := by
  simp only [CivilTime.render, ofText_append, ofText_blank, ofText_dash, ofText_colon,
    List.append_assoc, List.cons_append]

theorem isAscii_timeWritten {text : List Char} {hour minute : Nat}
    (h : TimeWritten text hour minute) : IsAscii text := by
  cases h <;> simp

theorem isAscii_dayWritten {text : List Char} {month day : Nat} (h : DayWritten month text day) :
    IsAscii text := by
  cases h <;> simp

theorem isAscii_targetWritten {period : Period} {text : List Char} {target : CivilTime}
    (h : TargetWritten period text target) : IsAscii text := by
  cases h with
  | yearOmitted | monthOmitted | hourOmitted => exact isAscii_nil
  | year hmonth hday htime => simp [isAscii_dayWritten hday, isAscii_timeWritten htime]
  | month hpos hday htime => simp [isAscii_timeWritten htime]
  | week htime => simp [isAscii_abbreviation, isAscii_timeWritten htime]
  | day htime => exact isAscii_timeWritten htime
  | hour hminute => simp

theorem head?_timeWritten {text : List Char} {hour minute : Nat}
    (h : TimeWritten text hour minute) : (ofText text).head? ≠ some 45 := by
  cases h with
  | omitted => simp
  | written hhour hminute =>
      rw [ofText_blank]
      simp

namespace Reader

variable {body : Body}

theorem timeOfDay_ends {t t' : CivilTime} (hhour : t.hour = 0) (hminute : t.minute = 0) :
    (timeOfDay t).Ends body t' ↔ ∃ text hour minute, TimeWritten text hour minute ∧
      body.rest = ofText text ∧ t' = { t with hour, minute } := by
  unfold timeOfDay
  rw [ends_optional]
  simp only [ends_bind, twoDigits_eq_ok, expect_eq_ok, ends_pure]
  constructor
  · rintro (⟨rfl, hrest⟩ | ⟨_, hblank, hour, _, ⟨-, -, hh, hhour'⟩, _, _, hcolon, minute, _,
      ⟨-, -, hm, hminute'⟩, rfl, hrest⟩)
    · refine ⟨[], 0, 0, .omitted, hrest, ?_⟩
      obtain ⟨⟩ := t
      simp_all
    · refine ⟨_, hour, minute, .written (by omega) (by omega), ?_, rfl⟩
      rw [ofText_timeWritten, hblank.1, hhour'.1, hcolon.1, hminute'.1, hrest, List.append_nil]
  · rintro ⟨text, hour, minute, htime, hrest, rfl⟩
    cases htime with
    | omitted =>
        left
        obtain ⟨⟩ := t
        simp_all
    | written hh hm =>
        right
        rw [ofText_timeWritten, ← List.append_nil (ofText (Decimal.padded 2 minute))] at hrest
        obtain ⟨m₁, h₁, hrest⟩ := Body.exists_reads hrest
        obtain ⟨m₂, h₂, hrest⟩ := Body.exists_reads hrest
        obtain ⟨m₃, h₃, hrest⟩ := Body.exists_reads hrest
        obtain ⟨m₄, h₄, hrest⟩ := Body.exists_reads hrest
        exact ⟨m₁, h₁, hour, m₂, ⟨by omega, by omega, by omega, h₂⟩, (), m₃, h₃, minute, m₄,
          ⟨by omega, by omega, by omega, h₄⟩, rfl, hrest⟩

theorem dayOfMonth_eq_ok {t t' : CivilTime} {after : Body} (hday : t.day = 1) :
    dayOfMonth t body = .ok t' after ↔ ∃ text day, DayWritten t.month text day ∧
      t' = { t with day } ∧ body.Reads (ofText text) after ∧
      (text = [] → body.rest.head? ≠ some 45) := by
  have hself : t = { t with day := 1 } := by rw [← hday]
  have hmonth := Calendar.daysInMonth_le true t.month
  unfold dayOfMonth
  rw [optional_eq_ok]
  simp only [step_bind_eq_ok, twoDigits_eq_ok]
  constructor
  · rintro (⟨rfl, hother, rfl⟩ | ⟨m₁, h₁, day, m₂, ⟨-, hpos, -, h₂⟩, h⟩)
    · exact ⟨[], 1, .omitted, hself, Body.reads_nil.2 rfl, fun _ => hother⟩
    · split at h
      · simp only [step_bind_eq_ok, step_throw_eq_ok, false_and, exists_false] at h
      · obtain ⟨rfl, rfl⟩ := step_pure_eq_ok.1 h
        refine ⟨_, day, .written hpos (by omega), rfl, ?_, nofun⟩
        rw [ofText_dash, Body.reads_append]
        exact ⟨m₁, h₁, h₂⟩
  · rintro ⟨text, day, hwritten, rfl, hreads, hother⟩
    cases hwritten with
    | omitted => exact .inl ⟨hself, hother rfl, Body.reads_nil.1 hreads⟩
    | written hpos hle =>
        rw [ofText_dash, Body.reads_append] at hreads
        obtain ⟨m₁, h₁, h₂⟩ := hreads
        refine .inr ⟨m₁, h₁, day, after, ⟨by omega, hpos, by omega, h₂⟩, ?_⟩
        rw [if_neg (by omega)]
        rfl

theorem yearTarget_ends {t : CivilTime} : (target .year).Ends body t ↔
    ∃ text, TargetWritten .year text t ∧ body.rest = ofText text := by
  change (accept 32 >>= fun found => if found = true then _ else pure _).Ends body t ↔ _
  rw [ends_optional]
  simp only [ends_bind, twoDigits_eq_ok]
  constructor
  · rintro (⟨rfl, hrest⟩ | ⟨m₁, h₁, month, m₂, ⟨-, hpos, hle, h₂⟩, t', m₃, hread, hends⟩)
    · exact ⟨[], .yearOmitted, hrest⟩
    · obtain ⟨dayText, day, hday, rfl, h₃, -⟩ := (dayOfMonth_eq_ok rfl).1 hread
      obtain ⟨timeText, hour, minute, htime, hrest, rfl⟩ := (timeOfDay_ends rfl rfl).1 hends
      refine ⟨_, .year (show month - 1 < 12 by omega) hday htime, ?_⟩
      rw [show month - 1 + 1 = month by omega, ofText_blank, ofText_append, ofText_append, h₁.1,
        h₂.1, h₃.1, hrest]
  · rintro ⟨text, htarget, hrest⟩
    cases htarget with
    | yearOmitted => exact .inl ⟨rfl, hrest⟩
    | @year month day hour minute dayText timeText hmonth hday htime =>
        rw [ofText_blank, ofText_append, ofText_append] at hrest
        obtain ⟨m₁, h₁, hrest⟩ := Body.exists_reads hrest
        obtain ⟨m₂, h₂, hrest⟩ := Body.exists_reads hrest
        obtain ⟨m₃, h₃, hrest⟩ := Body.exists_reads hrest
        refine .inr ⟨m₁, h₁, month + 1, m₂, ⟨by omega, by omega, by omega, h₂⟩, _, m₃,
          (dayOfMonth_eq_ok rfl).2 ⟨dayText, day, hday, rfl, h₃, ?_⟩,
          (timeOfDay_ends rfl rfl).2 ⟨timeText, hour, minute, htime, hrest, rfl⟩⟩
        -- Without a day, no dash may come next: it would be taken for the dash of a day.
        rintro rfl
        rw [hrest]
        exact head?_timeWritten htime

theorem monthTarget_ends {t : CivilTime} : (target .month).Ends body t ↔
    ∃ text, TargetWritten .month text t ∧ body.rest = ofText text := by
  change (accept 32 >>= fun found => if found = true then _ else pure _).Ends body t ↔ _
  rw [ends_optional]
  simp only [ends_bind, twoDigits_eq_ok]
  constructor
  · rintro (⟨rfl, hrest⟩ | ⟨m₁, h₁, day, m₂, ⟨-, hpos, hle, h₂⟩, hends⟩)
    · exact ⟨[], .monthOmitted, hrest⟩
    · obtain ⟨timeText, hour, minute, htime, hrest, rfl⟩ := (timeOfDay_ends rfl rfl).1 hends
      refine ⟨_, .month hpos hle htime, ?_⟩
      rw [ofText_blank, ofText_append, h₁.1, h₂.1, hrest]
  · rintro ⟨text, htarget, hrest⟩
    cases htarget with
    | monthOmitted => exact .inl ⟨rfl, hrest⟩
    | @month day hour minute timeText hpos hday htime =>
        rw [ofText_blank, ofText_append] at hrest
        obtain ⟨m₁, h₁, hrest⟩ := Body.exists_reads hrest
        obtain ⟨m₂, h₂, hrest⟩ := Body.exists_reads hrest
        exact .inr ⟨m₁, h₁, day, m₂, ⟨by omega, hpos, hday, h₂⟩,
          (timeOfDay_ends rfl rfl).2 ⟨timeText, hour, minute, htime, hrest, rfl⟩⟩

theorem weekTarget_ends {t : CivilTime} : (target .week).Ends body t ↔
    ∃ text, TargetWritten .week text t ∧ body.rest = ofText text := by
  unfold target
  simp only [ends_bind, expect_eq_ok, weekday_eq_ok]
  constructor
  · rintro ⟨_, m₁, h₁, day, m₂, h₂, hends⟩
    obtain ⟨timeText, hour, minute, htime, hrest, rfl⟩ := (timeOfDay_ends rfl rfl).1 hends
    refine ⟨_, .week htime, ?_⟩
    rw [ofText_blank, ofText_append, h₁.1, h₂.1, hrest]
  · rintro ⟨text, htarget, hrest⟩
    cases htarget with
    | @week day hour minute timeText htime =>
        rw [ofText_blank, ofText_append] at hrest
        obtain ⟨m₁, h₁, hrest⟩ := Body.exists_reads hrest
        obtain ⟨m₂, h₂, hrest⟩ := Body.exists_reads hrest
        exact ⟨(), m₁, h₁, day, m₂, h₂,
          (timeOfDay_ends rfl rfl).2 ⟨timeText, hour, minute, htime, hrest, rfl⟩⟩

theorem dayTarget_ends {t : CivilTime} : (target .day).Ends body t ↔
    ∃ text, TargetWritten .day text t ∧ body.rest = ofText text := by
  unfold target
  rw [timeOfDay_ends rfl rfl]
  constructor
  · rintro ⟨text, hour, minute, htime, hrest, rfl⟩
    exact ⟨text, .day htime, hrest⟩
  · rintro ⟨text, htarget, hrest⟩
    cases htarget with
    | @day hour minute _ htime => exact ⟨text, hour, minute, htime, hrest, rfl⟩

theorem hourTarget_ends {t : CivilTime} : (target .hour).Ends body t ↔
    ∃ text, TargetWritten .hour text t ∧ body.rest = ofText text := by
  change (accept 32 >>= fun found => if found = true then _ else pure _).Ends body t ↔ _
  rw [ends_optional]
  simp only [ends_bind, twoDigits_eq_ok, ends_pure]
  constructor
  · rintro (⟨rfl, hrest⟩ | ⟨m₁, h₁, minute, m₂, ⟨-, -, hle, h₂⟩, rfl, hrest⟩)
    · exact ⟨[], .hourOmitted, hrest⟩
    · refine ⟨_, .hour (show minute < 60 by omega), ?_⟩
      rw [ofText_blank, h₁.1, h₂.1, hrest, List.append_nil]
  · rintro ⟨text, htarget, hrest⟩
    cases htarget with
    | hourOmitted => exact .inl ⟨rfl, hrest⟩
    | @hour minute hminute =>
        rw [ofText_blank, ← List.append_nil (ofText (Decimal.padded 2 minute))] at hrest
        obtain ⟨m₁, h₁, hrest⟩ := Body.exists_reads hrest
        obtain ⟨m₂, h₂, hrest⟩ := Body.exists_reads hrest
        exact .inr ⟨m₁, h₁, minute, m₂, ⟨by omega, by omega, by omega, h₂⟩, rfl, hrest⟩

theorem target_ends {p : Period} {t : CivilTime} :
    (target p).Ends body t ↔ ∃ text, TargetWritten p text t ∧ body.rest = ofText text := by
  cases p with
  | year => exact yearTarget_ends
  | month => exact monthTarget_ends
  | week => exact weekTarget_ends
  | day => exact dayTarget_ends
  | hour => exact hourTarget_ends

theorem exists_of_civilTime_ends {t : CivilTime} (h : civilTime.Ends body t) :
    t.Exists ∧ body.rest = ofText t.render := by
  unfold civilTime at h
  rw [ends_rest] at h
  split at h
  · simp only [ends_bind, weekday_eq_ok, expect_eq_ok, twoDigits_eq_ok] at h
    obtain ⟨day, m₁, h₁, _, m₂, h₂, yy, m₃, ⟨-, -, -, h₃⟩, _, m₄, h₄, mm, m₅, ⟨-, hmonth, -, h₅⟩,
      _, m₆, h₆, dd, m₇, ⟨-, -, -, h₇⟩, _, m₈, h₈, hour, m₉, ⟨-, -, -, h₉⟩, _, m₁₀, h₁₀, minute,
      m₁₁, ⟨-, -, -, h₁₁⟩, _, m₁₂, h₁₂, second, m₁₃, ⟨-, -, -, h₁₃⟩, h⟩ := h
    split at h
    · rename_i hchecked
      obtain ⟨hexists, rfl⟩ := CivilTime.checked_eq_ok.1 hchecked
      obtain ⟨rfl, hrest⟩ := ends_pure.1 h
      refine ⟨hexists, ?_⟩
      rw [ofText_render, h₁.1, h₂.1, h₃.1, h₄.1, h₅.1, h₆.1, h₇.1, h₈.1, h₉.1, h₁₀.1, h₁₁.1,
        h₁₂.1, h₁₃.1, hrest, List.append_nil, Nat.sub_add_cancel hmonth]
    · exact (ends_throw.1 h).elim
  · simp only [ends_bind, step_throw_eq_ok, false_and, exists_false] at h

theorem civilTime_ends_of_exists {t : CivilTime} (h : t.Exists)
    (hrest : body.rest = ofText t.render) : civilTime.Ends body t := by
  have hlength : (ofText t.render).length = civilTimeLength := by
    rw [length_ofText t.isAscii_render, CivilTime.length_render h, civilTimeLength]
  have hyear : t.year < 100 := Nat.lt_succ_of_le h.year
  have hmonth := h.month
  have hday := CivilTime.day_le_of_exists h
  have hhour := h.hour
  have hminute := h.minute
  have hsecond := h.second
  unfold civilTime
  rw [ends_rest, if_pos (by rw [hrest, hlength])]
  -- The fields stand one after the other, each with its separator in front.
  rw [ofText_render, ← List.append_nil (ofText (Decimal.padded 2 t.second))] at hrest
  refine ends_next hrest (fun _ => weekday_eq_ok.2) fun _ hrest => ?_
  refine ends_next (a := ()) hrest (fun _ => expect_eq_ok.2) fun _ hrest => ?_
  refine ends_next hrest (fun _ hread => twoDigits_eq_ok.2 ⟨hyear, Nat.zero_le _, h.year, hread⟩)
    fun _ hrest => ?_
  refine ends_next (a := ()) hrest (fun _ => expect_eq_ok.2) fun _ hrest => ?_
  refine ends_next hrest (fun _ hread => twoDigits_eq_ok.2 ⟨by omega, by omega, by omega, hread⟩)
    fun _ hrest => ?_
  refine ends_next (a := ()) hrest (fun _ => expect_eq_ok.2) fun _ hrest => ?_
  refine ends_next hrest (fun _ hread => twoDigits_eq_ok.2 ⟨by omega, h.day_pos, hday, hread⟩)
    fun _ hrest => ?_
  refine ends_next (a := ()) hrest (fun _ => expect_eq_ok.2) fun _ hrest => ?_
  refine ends_next hrest (fun _ hread => twoDigits_eq_ok.2 ⟨by omega, by omega, by omega, hread⟩)
    fun _ hrest => ?_
  refine ends_next (a := ()) hrest (fun _ => expect_eq_ok.2) fun _ hrest => ?_
  refine ends_next hrest (fun _ hread => twoDigits_eq_ok.2 ⟨by omega, by omega, by omega, hread⟩)
    fun _ hrest => ?_
  refine ends_next (a := ()) hrest (fun _ => expect_eq_ok.2) fun _ hrest => ?_
  refine ends_next hrest (fun _ hread => twoDigits_eq_ok.2 ⟨by omega, by omega, by omega, hread⟩)
    fun _ hrest => ?_
  rw [Nat.add_sub_cancel, CivilTime.checked_eq_ok.2 ⟨h, rfl⟩]
  exact ends_pure.2 ⟨rfl, hrest⟩

theorem civilTime_ends {t : CivilTime} :
    civilTime.Ends body t ↔ t.Exists ∧ body.rest = ofText t.render :=
  ⟨exists_of_civilTime_ends, fun h => civilTime_ends_of_exists h.1 h.2⟩

theorem channel_ends {c : Channel} :
    channel.Ends body c ↔ body.rest = ofText (Decimal.numeral c) :=
  ends_of_reads fun _ _ => channel_eq_ok

theorem alarmSlot_ends {slot : AlarmSlot} :
    alarmSlot.Ends body slot ↔ body.rest = ofText (Decimal.padded 2 slot) :=
  ends_of_reads fun _ _ => alarmSlot_eq_ok

theorem takeRest_eq_ok {octets : Octets} {after : Body} : takeRest body = .ok octets after ↔
    octets = body.rest ∧ after = ⟨[], body.position + body.rest.length⟩ := by
  change take body.rest.length body = _ ↔ _
  rw [take, if_pos (Nat.le_refl _), List.take_length, List.drop_length]
  simp [eq_comm]

/-! ### Requests -/

variable {minutes : Nat} {text : List Char} {r : Request}

theorem whole_setClock (htext : IsAscii text) :
    (fields minutes .setClock).whole (ofText text) = .ok r ↔ Written ('A' :: text) r := by
  rw [whole_eq_ok, fields, ends_map]
  simp only [civilTime_ends]
  constructor
  · rintro ⟨time, ⟨htime, hrest⟩, rfl⟩
    obtain rfl := (ofText_inj htext time.isAscii_render).1 hrest
    exact .setClock htime
  · intro h
    cases h with
    | setClock htime => exact ⟨_, ⟨htime, rfl⟩, rfl⟩

theorem whole_readClock (htext : IsAscii text) :
    (fields minutes .readClock).whole (ofText text) = .ok r ↔ Written ('B' :: text) r := by
  rw [whole_eq_ok, fields, ends_pure]
  constructor
  · rintro ⟨rfl, hrest⟩
    obtain rfl := (ofText_inj htext isAscii_nil).1 hrest
    exact .readClock
  · intro h
    cases h with
    | readClock => exact ⟨rfl, rfl⟩

theorem whole_reset (htext : IsAscii text) :
    (fields minutes .reset).whole (ofText text) = .ok r ↔ Written ('I' :: text) r := by
  rw [whole_eq_ok, fields, ends_pure]
  constructor
  · rintro ⟨rfl, hrest⟩
    obtain rfl := (ofText_inj htext isAscii_nil).1 hrest
    exact .reset
  · intro h
    cases h with
    | reset => exact ⟨rfl, rfl⟩

/-- A request with a single field, which the rest of the line spells. -/
theorem whole_field {α : Type} {x : Reader α} {f : α → Request} {word : α → List Char}
    (htext : IsAscii text) (hword : ∀ a, IsAscii (word a))
    (hx : ∀ a, x.Ends (.start (ofText text)) a ↔ ofText text = ofText (word a)) :
    (do return f (← x) : Reader Request).whole (ofText text) = .ok r ↔
      ∃ a, text = word a ∧ f a = r := by
  rw [whole_eq_ok, ends_map]
  simp only [hx, ofText_inj htext (hword _)]

theorem whole_clearAlarm (htext : IsAscii text) :
    (fields minutes .clearAlarm).whole (ofText text) = .ok r ↔ Written ('D' :: text) r := by
  have hslot (slot : AlarmSlot) : IsAscii (Decimal.padded 2 slot) := isAscii_padded 2 slot
  refine (whole_field htext hslot fun _ => alarmSlot_ends).trans ?_
  constructor
  · rintro ⟨slot, rfl, rfl⟩
    exact .clearAlarm
  · intro h
    cases h with
    | clearAlarm => exact ⟨_, rfl, rfl⟩

theorem whole_clearTrigger (htext : IsAscii text) :
    (fields minutes .clearTrigger).whole (ofText text) = .ok r ↔ Written ('F' :: text) r := by
  have hchannel (c : Channel) : IsAscii (Decimal.numeral c) := isAscii_numeral c
  refine (whole_field htext hchannel fun _ => channel_ends).trans ?_
  constructor
  · rintro ⟨channel, rfl, rfl⟩
    exact .clearTrigger
  · intro h
    cases h with
    | clearTrigger => exact ⟨_, rfl, rfl⟩

theorem whole_readChannel (htext : IsAscii text) :
    (fields minutes .readChannel).whole (ofText text) = .ok r ↔ Written ('H' :: text) r := by
  have hchannel (c : Channel) : IsAscii (Decimal.numeral c) := isAscii_numeral c
  refine (whole_field htext hchannel fun _ => channel_ends).trans ?_
  constructor
  · rintro ⟨channel, rfl, rfl⟩
    exact .readChannel
  · intro h
    cases h with
    | readChannel => exact ⟨_, rfl, rfl⟩

/-- A channel, a blank and the rest of the text, which is looked at as a whole. -/
theorem whole_channel_word {f : Channel → Octets → Reader Request} (htext : IsAscii text) :
    (do let c ← channel; expect 32; f c (← takeRest) : Reader Request).whole (ofText text) = .ok r ↔
      ∃ (c : Channel) (word : List Char), text = Decimal.numeral c ++ ' ' :: word ∧
        (f c (ofText word)).Ends ⟨[], (ofText text).length⟩ r := by
  rw [whole_eq_ok]
  simp only [ends_bind, channel_eq_ok, expect_eq_ok, takeRest_eq_ok]
  constructor
  · rintro ⟨c, m₁, h₁, _, m₂, h₂, _, _, ⟨rfl, rfl⟩, h⟩
    have hoctets : ofText text = ofText (Decimal.numeral c) ++ ([32] ++ m₂.rest) := by
      rw [← h₂.1, ← h₁.1, Body.start]
    have hrest : ∀ b ∈ m₂.rest, b < 128 := by
      intro b hb
      apply lt_of_mem_ofText htext
      rw [hoctets]
      simp [hb]
    have hposition : m₂.position + m₂.rest.length = (ofText text).length := by
      rw [h₂.2, h₁.2, hoctets, Body.start]
      simp only [List.length_append]
      omega
    rw [hposition] at h
    rw [← ofText_toText hrest, ← ofText_channel] at hoctets
    have hword := isAscii_toText hrest
    refine ⟨c, toText m₂.rest, (ofText_inj htext (by simp [hword])).1 hoctets, ?_⟩
    rwa [ofText_toText hrest]
  · rintro ⟨c, word, rfl, h⟩
    have hrest : (Body.start (ofText (Decimal.numeral c ++ ' ' :: word))).rest = _ :=
      ofText_channel c word
    obtain ⟨m₁, h₁, hrest⟩ := Body.exists_reads hrest
    obtain ⟨m₂, h₂, hrest⟩ := Body.exists_reads hrest
    have hposition :
        m₂.position + m₂.rest.length = (ofText (Decimal.numeral c ++ ' ' :: word)).length := by
      rw [h₂.2, h₁.2, hrest, Body.start, ofText_channel]
      simp only [List.length_append]
      omega
    refine ⟨c, m₁, h₁, (), m₂, h₂, _, _, ⟨rfl, rfl⟩, ?_⟩
    rwa [hposition, hrest]

/-- The fields of an alarm without its duration. -/
theorem whole_setAlarm (htext : IsAscii text) :
    (fields minutes .setAlarm).whole (ofText text) = .ok r ↔
      ∃ (slot : AlarmSlot) (period : Period) (t : CivilTime) (count : Nat) (targetText : List Char),
        1 ≤ count ∧ count ≤ Schedule.maxCount ∧ TargetWritten period targetText t ∧
        text = Decimal.padded 2 slot ++
          ' ' :: (Decimal.padded 2 count ++ period.letter :: targetText) ∧
        r = .setAlarm slot (.clamped period t count minutes) := by
  rw [whole_eq_ok, fields, alarm]
  simp only [ends_bind, alarmSlot_eq_ok, expect_eq_ok, twoDigits_eq_ok, period_eq_ok]
  constructor
  · rintro ⟨slot, m₁, h₁, _, m₂, h₂, count, m₃, ⟨-, hpos, hcount, h₃⟩, p, m₄, h₄, t, m₅, h₅, h⟩
    obtain ⟨rfl, hend⟩ := ends_pure.1 h
    obtain ⟨targetText, htarget, hrest⟩ := target_ends.1 ⟨m₅, h₅, hend⟩
    refine ⟨slot, p, t, count, targetText, hpos, hcount, htarget, ?_, rfl⟩
    have hletter := isAscii_letter p
    rw [isAscii_cons] at hletter
    refine (ofText_inj htext (by simp [hletter, isAscii_targetWritten htarget])).1 ?_
    rw [ofText_alarm, ← hrest, ← h₄.1, ← h₃.1, ← h₂.1, ← h₁.1, Body.start]
  · rintro ⟨slot, p, t, count, targetText, hpos, hcount, htarget, rfl, rfl⟩
    have hrest : (Body.start (ofText (Decimal.padded 2 slot ++
      ' ' :: (Decimal.padded 2 count ++ p.letter :: targetText)))).rest = _ := ofText_alarm _ _ _ _
    obtain ⟨m₁, h₁, hrest⟩ := Body.exists_reads hrest
    obtain ⟨m₂, h₂, hrest⟩ := Body.exists_reads hrest
    obtain ⟨m₃, h₃, hrest⟩ := Body.exists_reads hrest
    obtain ⟨m₄, h₄, hrest⟩ := Body.exists_reads hrest
    obtain ⟨m₅, h₅, hend⟩ := target_ends.2 ⟨targetText, htarget, hrest⟩
    have hhundred : count < 100 := Nat.lt_of_le_of_lt hcount (by decide)
    exact ⟨slot, m₁, h₁, (), m₂, h₂, count, m₃, ⟨hhundred, hpos, hcount, h₃⟩, p, m₄, h₄, t, m₅, h₅,
      ends_pure.2 ⟨rfl, hend⟩⟩

theorem whole_setTrigger (htext : IsAscii text) :
    (fields minutes .setTrigger).whole (ofText text) = .ok r ↔ Written ('E' :: text) r := by
  rw [fields, whole_channel_word htext]
  constructor
  · rintro ⟨c, formula, rfl, h⟩
    simp only [isAscii_append, isAscii_cons] at htext
    rw [toText_ofText htext.2.2] at h
    dsimp only at h
    split at h
    · simp only [ends_bind, step_throw_eq_ok, false_and, exists_false] at h
    · rename_i hsome
      obtain ⟨rfl, -⟩ := ends_pure.1 h
      exact .setTrigger (by simpa using hsome)
  · intro h
    cases h with
    | @setTrigger c formula hsome =>
        simp only [isAscii_append, isAscii_cons] at htext
        refine ⟨c, formula, rfl, ?_⟩
        rw [toText_ofText htext.2.2, if_neg (by simpa using hsome)]
        exact ends_pure.2 ⟨rfl, rfl⟩

theorem whole_setDirection (htext : IsAscii text) :
    (fields minutes .setDirection).whole (ofText text) = .ok r ↔ Written ('G' :: text) r := by
  rw [fields, whole_channel_word htext]
  constructor
  · rintro ⟨c, word, rfl, h⟩
    simp only [isAscii_append, isAscii_cons] at htext
    rw [toText_ofText htext.2.2] at h
    split at h
    · rename_i direction hfound
      obtain ⟨rfl, -⟩ := ends_pure.1 h
      have hword := List.find?_some hfound
      rw [beq_iff_eq] at hword
      rw [← hword]
      exact .setDirection
    · exact (ends_throw.1 h).elim
  · intro h
    cases h with
    | @setDirection c direction =>
        simp only [isAscii_append, isAscii_cons] at htext
        refine ⟨c, direction.word, rfl, ?_⟩
        rw [toText_ofText htext.2.2, Direction.ofWord?_word]
        exact ends_pure.2 ⟨rfl, rfl⟩

end Reader

end TimeSwitch.Wire
