import TimeSwitch.Proofs.Formula.Parsing
import TimeSwitch.Proofs.Formula.Stages

/-!
Texts cut in two between tokens. A cut must not go through a number; then what stands before it
spells its tokens whatever comes after, and every place that a scan comes to is such a cut
(`exists_cut`).
-/

namespace TimeSwitch.Formula

/-- No number reaches from one text into the next. -/
def Apart (before after : List Char) : Prop :=
  ∀ d ∈ before.getLast?, ∀ c ∈ after.head?, d.isDigit → c.isDigit = false

namespace Apart

variable {before after : List Char}

theorem nil (after : List Char) : Apart [] after := nofun

theorem of_head (h : ∀ c ∈ after.head?, c.isDigit = false) : Apart before after :=
  fun _ _ c hc _ => h c hc

theorem append {front : List Char} (h : Apart before after)
    (hfront : before = [] → Apart front after) : Apart (front ++ before) after := by
  cases before with
  | nil =>
      rw [List.append_nil]
      exact hfront rfl
  | cons b before =>
      intro d hd
      refine h d ?_
      rw [List.getLast?_append] at hd
      simpa using hd

theorem cons {c : Char} (h : Apart before after) (hc : c.isDigit = false) :
    Apart (c :: before) after :=
  @append _ _ [c] h fun _ d hd _ _ hdigit => by simp_all

theorem of_append {front : List Char} (h : Apart (front ++ before) after) : Apart before after := by
  intro d hd
  refine h d ?_
  rw [Option.mem_def] at hd
  simp [List.getLast?_append, hd]

theorem of_cons {c : Char} (h : Apart (c :: before) after) : Apart before after :=
  @of_append _ _ [c] h

/-- A run of digits goes as far as the text before the cut has it. -/
theorem greedy {digits : List Char} (h : Apart (digits ++ before) after) (hsome : digits ≠ [])
    (hdigits : ∀ c ∈ digits, c.isDigit) (hgreedy : ∀ c ∈ before.head?, c.isDigit = false) :
    ∀ c ∈ (before ++ after).head?, c.isDigit = false := by
  cases before with
  | nil =>
      intro c hc
      rw [List.append_nil] at h
      exact h _ (List.getLast?_eq_some_getLast hsome) c hc (hdigits _ (List.getLast_mem hsome))
  | cons b before => exact hgreedy

end Apart

theorem Spells.append {before after : List Char} {tokens rest : List Token}
    (h : Spells before tokens) (hapart : Apart before after) (hafter : Spells after rest) :
    Spells (before ++ after) (tokens ++ rest) := by
  induction h with
  | done => exact hafter
  | blank hblank _ ih => exact .blank hblank (ih hapart.of_cons)
  | symbol hsymbol _ ih => exact .symbol hsymbol (ih hapart.of_cons)
  | number hsome hdigits hgreedy hvalue _ ih =>
      rw [List.append_assoc]
      exact .number hsome hdigits (hapart.greedy hsome hdigits hgreedy) hvalue (ih hapart.of_append)

/-! ### Texts without regard to the limits -/

/-- As `Spells`, but a number may have any value. -/
inductive Outlines : List Char → List Token → Prop
  | done : Outlines [] []
  | blank {c : Char} {text : List Char} {tokens : List Token} (hblank : isBlank c)
      (later : Outlines text tokens) : Outlines (c :: text) tokens
  | symbol {c : Char} {token : Token} {text : List Char} {tokens : List Token}
      (hsymbol : Token.ofSymbol? c = some token) (later : Outlines text tokens) :
      Outlines (c :: text) (token :: tokens)
  | number {digits text : List Char} {s : Signal} {tokens : List Token} (hsome : digits ≠ [])
      (hdigits : ∀ c ∈ digits, c.isDigit) (hgreedy : ∀ c ∈ text.head?, c.isDigit = false)
      (later : Outlines text tokens) : Outlines (digits ++ text) (.signal s :: tokens)

theorem Spells.outlines {text : List Char} {tokens : List Token} (h : Spells text tokens) :
    Outlines text tokens := by
  induction h with
  | done => exact .done
  | blank hblank _ ih => exact .blank hblank ih
  | symbol hsymbol _ ih => exact .symbol hsymbol ih
  | number hsome hdigits hgreedy _ _ ih => exact .number hsome hdigits hgreedy ih

/-- The text is a sentence of the grammar, however many nodes it takes and however large its
numbers are. -/
def InGrammar (text : String) : Prop :=
  ∃ s, Outlines text.toList s.tokens ∧ Derives .expression s

/-- The limits only narrow what is in the grammar. -/
theorem inGrammar_of_isSentence {text : String} {s : Sentence} (h : IsSentence text s) :
    InGrammar text :=
  ⟨s, h.1.outlines, h.2⟩

namespace Outlines

variable {c : Char} {text : List Char} {tokens : List Token}

theorem of_nil (h : Outlines [] tokens) : tokens = [] := by
  generalize htext : ([] : List Char) = text at h
  cases h with
  | done => rfl
  | blank => cases htext
  | symbol => cases htext
  | number hsome => exact absurd (List.append_eq_nil_iff.1 htext.symm).1 hsome

theorem of_blank (hblank : isBlank c) (h : Outlines (c :: text) tokens) : Outlines text tokens := by
  generalize htext : c :: text = whole at h
  cases h with
  | done => cases htext
  | blank _ later =>
      cases htext
      exact later
  | symbol hsymbol =>
      cases htext
      simp [(plain_of_ofSymbol? hsymbol).1] at hblank
  | number hsome hdigits =>
      obtain ⟨d, digits, rfl⟩ := List.exists_cons_of_ne_nil hsome
      obtain rfl := (List.cons.inj htext).1
      simp [isBlank_of_isDigit (hdigits c List.mem_cons_self)] at hblank

theorem of_symbol {token : Token} (hsymbol : Token.ofSymbol? c = some token)
    (h : Outlines (c :: text) tokens) : ∃ later, tokens = token :: later ∧ Outlines text later := by
  obtain ⟨hplain, hdigit⟩ := plain_of_ofSymbol? hsymbol
  generalize htext : c :: text = whole at h
  cases h with
  | done => cases htext
  | blank hblank =>
      cases htext
      simp [hplain] at hblank
  | symbol hsymbol' later =>
      cases htext
      obtain rfl := Option.some.inj (hsymbol.symm.trans hsymbol')
      exact ⟨_, rfl, later⟩
  | number hsome hdigits =>
      obtain ⟨d, digits, rfl⟩ := List.exists_cons_of_ne_nil hsome
      obtain rfl := (List.cons.inj htext).1
      simp [hdigits c List.mem_cons_self] at hdigit

theorem of_number {digits : List Char} (hsome : digits ≠ []) (hdigits : ∀ c ∈ digits, c.isDigit)
    (hgreedy : ∀ c ∈ text.head?, c.isDigit = false) (h : Outlines (digits ++ text) tokens) :
    ∃ s later, tokens = .signal s :: later ∧ Outlines text later := by
  have hrun := Cursor.takeWhile_run hdigits hgreedy
  obtain ⟨d, digits, rfl⟩ := List.exists_cons_of_ne_nil hsome
  have hdigit := hdigits d List.mem_cons_self
  generalize htext : d :: digits ++ text = whole at h
  cases h with
  | done => cases htext
  | blank hblank =>
      cases htext
      simp [isBlank_of_isDigit hdigit] at hblank
  | symbol hsymbol =>
      cases htext
      simp [(plain_of_ofSymbol? hsymbol).2] at hdigit
  | @number digits' text' s _ _ hdigits' hgreedy' later =>
      -- both runs are all the digits that stand in front
      have hsame : d :: digits = digits' := by
        rw [← hrun, htext, Cursor.takeWhile_run hdigits' hgreedy']
      rw [hsame] at htext
      obtain rfl := List.append_cancel_left htext
      exact ⟨s, _, rfl, later⟩

/-- Where the text before a cut spells its tokens, the text after it goes on from the stage that
they lead to. -/
theorem cut {before after : List Char} {front : List Token} (h : Outlines (before ++ after) tokens)
    (hbefore : Spells before front) (hapart : Apart before after) :
    ∃ rest, Outlines after rest ∧ ∀ stage : Stage,
      stage.afterAll tokens = (stage.afterAll front).bind (·.afterAll rest) := by
  induction hbefore generalizing tokens with
  | done => exact ⟨tokens, h, fun _ => rfl⟩
  | blank hblank _ ih => exact ih (h.of_blank hblank) hapart.of_cons
  | symbol hsymbol _ ih =>
      obtain ⟨later, rfl, hlater⟩ := h.of_symbol hsymbol
      obtain ⟨rest, hrest, hstage⟩ := ih hlater hapart.of_cons
      refine ⟨rest, hrest, fun stage => ?_⟩
      simp only [Stage.afterAll_cons, hstage, Option.bind_assoc]
  | @number digits text s front hsome hdigits hgreedy hvalue _ ih =>
      rw [List.append_assoc] at h
      obtain ⟨s', later, rfl, hlater⟩ :=
        h.of_number hsome hdigits (hapart.greedy hsome hdigits hgreedy)
      obtain ⟨rest, hrest, hstage⟩ := ih hlater hapart.of_append
      refine ⟨rest, hrest, fun stage => ?_⟩
      -- stages do not tell signals apart
      have hsignal : stage.after (.signal s') = stage.after (.signal s) := by cases stage <;> rfl
      simp only [Stage.afterAll_cons, hstage, hsignal, Option.bind_assoc]

end Outlines

/-! ### Where a scan stands -/

/-- From one scan to a later one, tokens have been passed. Unlike `Phrase.Took`, this keeps the
lexemes that are left, and with them the places where they stand. -/
structure Passed (scan : Scan) (tokens : List Token) (here : Scan) : Prop where
  lexemes : ∃ front : List Lexeme, front.map Lexeme.token = tokens ∧
    scan.lexemes = front ++ here.lexemes
  ending : here.ending = scan.ending

namespace Passed

variable {a b c : Scan} {s t : List Token}

theorem refl (a : Scan) : Passed a [] a := ⟨⟨[], rfl, rfl⟩, rfl⟩

theorem trans (h : Passed a s b) (h' : Passed b t c) : Passed a (s ++ t) c := by
  obtain ⟨⟨front, rfl, hfront⟩, hending⟩ := h
  obtain ⟨⟨back, rfl, hback⟩, hending'⟩ := h'
  exact ⟨⟨front ++ back, List.map_append, by rw [hfront, hback, List.append_assoc]⟩,
    hending'.trans hending⟩

theorem token {l : Lexeme} {rest : List Lexeme} (h : a.lexemes = l :: rest) :
    Passed a [l.token] ⟨rest, a.ending⟩ :=
  ⟨⟨[l], rfl, h⟩, rfl⟩

theorem eq_of_nil (h : Passed a [] b) : b = a := by
  obtain ⟨⟨front, hfront, hlexemes⟩, hending⟩ := h
  obtain rfl := List.map_eq_nil_iff.1 hfront
  cases a
  cases b
  simp_all

theorem of_cons {token : Token} (h : Passed a (token :: s) b) :
    ∃ l later, a.lexemes = l :: later ∧ l.token = token ∧ Passed ⟨later, a.ending⟩ s b := by
  obtain ⟨⟨front, hfront, hlexemes⟩, hending⟩ := h
  obtain ⟨l, front, rfl, hl, hfront⟩ := List.map_eq_cons_iff.1 hfront
  exact ⟨l, _, hlexemes, hl, ⟨front, hfront, rfl⟩, hending⟩

end Passed

/-- A cut behind tokens, before a character that is not blank. -/
structure Cut (text : List Char) (tokens : List Token) (before after : List Char) : Prop where
  text : text = before ++ after
  spells : Spells before tokens
  apart : Apart before after
  plain : ∀ c ∈ after.head?, isBlank c = false

namespace Cut

variable {c : Char} {text before after : List Char} {tokens : List Token}

theorem nil (h : ∀ c ∈ text.head?, isBlank c = false) : Cut text [] [] text :=
  ⟨rfl, .done, .nil text, h⟩

theorem blank (hblank : isBlank c) (h : Cut text tokens before after) :
    Cut (c :: text) tokens (c :: before) after where
  text := by rw [h.text, List.cons_append]
  spells := .blank hblank h.spells
  apart := by
    refine h.apart.cons (Bool.eq_false_iff.2 fun hdigit => ?_)
    simp [isBlank_of_isDigit hdigit] at hblank
  plain := h.plain

theorem symbol {token : Token} (hsymbol : Token.ofSymbol? c = some token)
    (h : Cut text tokens before after) : Cut (c :: text) (token :: tokens) (c :: before) after where
  text := by rw [h.text, List.cons_append]
  spells := .symbol hsymbol h.spells
  apart := h.apart.cons (plain_of_ofSymbol? hsymbol).2
  plain := h.plain

theorem number {digits : List Char} {s : Signal} (hsome : digits ≠ [])
    (hdigits : ∀ c ∈ digits, c.isDigit) (hgreedy : ∀ c ∈ text.head?, c.isDigit = false)
    (hvalue : Nat.ofDigitChars 10 digits 0 = s.val) (h : Cut text tokens before after) :
    Cut (digits ++ text) (.signal s :: tokens) (digits ++ before) after where
  text := by rw [h.text, List.append_assoc]
  spells := by
    refine .number hsome hdigits (fun c hc => hgreedy c ?_) hvalue h.spells
    rw [h.text, List.head?_append, Option.mem_def.1 hc]
    rfl
  apart := by
    refine h.apart.append fun hnil => .of_head ?_
    rwa [h.text, hnil] at hgreedy
  plain := h.plain

end Cut

/-- Where a fault points, if it points anywhere. -/
def Fault.position? : Fault → Option Nat
  | .stray _ position | .unexpected _ position | .unclosed position => some position
  | .numberTooLarge .. | .noSuchSignal _ | .tooManyNodes => none

theorem position?_of_signalOfRun {digits : List Char} {fault : Fault}
    (h : signalOfRun digits = .error fault) : fault.position? = none := by
  unfold signalOfRun at h
  dsimp only at h
  split at h
  · cases h
    rfl
  · split at h <;> cases h
    rfl

/-- What a scan finds at a character that is not blank. -/
inductive Found (position : Nat) : List Char → Scan → Prop
  | symbol {c : Char} {rest : List Char} {token : Token} {later : Scan}
      (hsymbol : Token.ofSymbol? c = some token)
      (hlater : (⟨rest, position + 1⟩ : Cursor).scan = later) :
      Found position (c :: rest) ⟨⟨token, c, position⟩ :: later.lexemes, later.ending⟩
  | number {c : Char} {digits rest : List Char} {s : Signal} {later : Scan}
      (hdigits : ∀ d ∈ c :: digits, d.isDigit) (hgreedy : ∀ d ∈ rest.head?, d.isDigit = false)
      (hvalue : Nat.ofDigitChars 10 (c :: digits) 0 = s.val)
      (hlater : (⟨rest, position + (digits.length + 1)⟩ : Cursor).scan = later) :
      Found position (c :: digits ++ rest)
        ⟨⟨.signal s, c, position⟩ :: later.lexemes, later.ending⟩
  | refused {text : List Char} {fault : Fault} (hfault : fault.position? = none) :
      Found position text ⟨[], .error fault⟩
  | stray {c : Char} {rest : List Char} (hblank : isBlank c = false) (hdigit : c.isDigit = false)
      (hsymbol : Token.ofSymbol? c = none) :
      Found position (c :: rest) ⟨[], .error (.stray c position)⟩

theorem found_scan {c : Char} (hblank : isBlank c = false) (rest : List Char) (position : Nat) :
    Found position (c :: rest) (⟨c :: rest, position⟩ : Cursor).scan := by
  rw [Cursor.scan_eq]
  cases hdigit : c.isDigit with
  | true =>
      obtain ⟨digits, text, rfl, hdigits, hgreedy⟩ := exists_run rest
      have hrun : ∀ d ∈ c :: digits, d.isDigit := by simpa [hdigit] using hdigits
      rw [← List.cons_append, Cursor.next_number hrun hgreedy]
      cases hs : signalOfRun (c :: digits) with
      | error fault => exact .refused (position?_of_signalOfRun hs)
      | ok s => exact .number hrun hgreedy (signalOfRun_eq_ok_iff.1 hs) rfl
  | false =>
      cases hsymbol : Token.ofSymbol? c with
      | none =>
          rw [Cursor.next_stray hblank hdigit hsymbol]
          exact .stray hblank hdigit hsymbol
      | some token =>
          rw [Cursor.next_symbol hsymbol]
          exact .symbol hsymbol rfl

/-- Wherever a scan comes to, the text may be cut there, and scanning goes on from the cut. -/
theorem exists_cut {text : List Char} {position : Nat} {tokens : List Token} {here : Scan}
    (h : Passed (⟨text, position⟩ : Cursor).scan tokens here) :
    ∃ before after, Cut text tokens before after ∧
      (⟨after, position + before.length⟩ : Cursor).scan = here := by
  -- as in `spells_of_finds`, a run of digits is passed over at once
  induction hn : text.length using Nat.strongRecOn generalizing text tokens position with
  | ind n ih =>
      cases text with
      | nil =>
          rw [Cursor.scan_nil] at h
          cases tokens with
          | nil => exact ⟨[], [], .nil nofun, by rw [Cursor.scan_nil, h.eq_of_nil]; rfl⟩
          | cons token tokens =>
              obtain ⟨l, later, hlexemes, -⟩ := h.of_cons
              cases hlexemes
      | cons c rest =>
          simp only [List.length_cons] at hn
          cases hblank : isBlank c with
          | true =>
              rw [Cursor.scan_blank hblank] at h
              obtain ⟨before, after, hcut, hscan⟩ := ih _ (by omega) h rfl
              refine ⟨c :: before, after, hcut.blank hblank, ?_⟩
              rwa [List.length_cons, Nat.add_comm before.length, ← Nat.add_assoc]
          | false =>
              cases tokens with
              | nil => exact ⟨[], c :: rest, .nil (by simpa using hblank), h.eq_of_nil.symm⟩
              | cons token tokens =>
                  have hfound := found_scan hblank rest position
                  generalize (⟨c :: rest, position⟩ : Cursor).scan = scan at h hfound
                  obtain ⟨l, later, hlexemes, rfl, hpassed⟩ := h.of_cons
                  generalize htext : c :: rest = text at hfound
                  cases hfound with
                  | symbol hsymbol hlater =>
                      cases htext
                      cases hlexemes
                      rw [← hlater] at hpassed
                      obtain ⟨before, after, hcut, hscan⟩ := ih _ (by omega) hpassed rfl
                      refine ⟨c :: before, after, hcut.symbol hsymbol, ?_⟩
                      rwa [List.length_cons, Nat.add_comm before.length, ← Nat.add_assoc]
                  | @number _ digits text _ _ hdigits hgreedy hvalue hlater =>
                      obtain rfl := (List.cons.inj htext).1
                      obtain rfl : rest = digits ++ text := (List.cons.inj htext).2
                      cases hlexemes
                      rw [List.length_append] at hn
                      rw [← hlater] at hpassed
                      obtain ⟨before, after, hcut, hscan⟩ := ih _ (by omega) hpassed rfl
                      refine ⟨c :: digits ++ before, after,
                        hcut.number (List.cons_ne_nil c digits) hdigits hgreedy hvalue, ?_⟩
                      rwa [List.length_append, List.length_cons, ← Nat.add_assoc]
                  | refused => cases hlexemes
                  | stray => cases hlexemes

theorem Found.lexeme_at {position : Nat} {c : Char} {rest : List Char} {l : Lexeme}
    {later : List Lexeme} {ending : Except Fault Nat}
    (h : Found position (c :: rest) ⟨l :: later, ending⟩) :
    l.symbol = c ∧ l.position = position := by
  cases h <;> exact ⟨rfl, rfl⟩

/-- Texts with the same first character begin with tokens that stages do not tell apart. -/
theorem Found.after_eq {position : Nat} {c : Char} {rest more : List Char} {l : Lexeme}
    {later : List Lexeme} {ending : Except Fault Nat} {tokens : List Token}
    (h : Found position (c :: rest) ⟨l :: later, ending⟩) (hmore : Outlines (c :: more) tokens) :
    ∃ token others, tokens = token :: others ∧
      ∀ stage : Stage, stage.after token = stage.after l.token := by
  cases h with
  | symbol hsymbol _ =>
      obtain ⟨others, rfl, -⟩ := hmore.of_symbol hsymbol
      exact ⟨_, others, rfl, fun _ => rfl⟩
  | number hdigits _ _ _ =>
      have hdigit := hdigits c List.mem_cons_self
      obtain ⟨digits, text, rfl, hrun, hgreedy⟩ := exists_run more
      rw [← List.cons_append] at hmore
      obtain ⟨s, others, rfl, -⟩ :=
        hmore.of_number (List.cons_ne_nil c digits) (by simpa [hdigit] using hrun) hgreedy
      exact ⟨_, others, rfl, fun stage => by cases stage <;> rfl⟩

theorem not_outlines_of_stray {c : Char} {more : List Char} {tokens : List Token}
    (hblank : isBlank c = false) (hdigit : c.isDigit = false) (hsymbol : Token.ofSymbol? c = none) :
    ¬Outlines (c :: more) tokens := by
  intro h
  generalize htext : c :: more = text at h
  cases h with
  | done => cases htext
  | blank hblank' =>
      cases htext
      simp [hblank] at hblank'
  | symbol hsymbol' =>
      cases htext
      simp [hsymbol] at hsymbol'
  | number hsome hdigits =>
      obtain ⟨d, digits, rfl⟩ := List.exists_cons_of_ne_nil hsome
      obtain rfl := (List.cons.inj htext).1
      simp [hdigits c List.mem_cons_self] at hdigit

end TimeSwitch.Formula
