import TimeSwitch.Formula.Token

/-!
The tokens that a text spells, said without a scanner: blanks separate, a symbol stands for its
token, and a number is a whole run of digits. `spells_iff_finds` says that a scan finds these
tokens and no others.
-/

namespace TimeSwitch.Formula

inductive Spells : List Char → List Token → Prop
  | done : Spells [] []
  | blank {c : Char} {text : List Char} {tokens : List Token} (hblank : isBlank c)
      (later : Spells text tokens) : Spells (c :: text) tokens
  | symbol {c : Char} {token : Token} {text : List Char} {tokens : List Token}
      (hsymbol : Token.ofSymbol? c = some token) (later : Spells text tokens) :
      Spells (c :: text) (token :: tokens)
  /-- A run of digits, with no digit after it, whose value is the number of a signal. -/
  | number {digits text : List Char} {s : Signal} {tokens : List Token} (hsome : digits ≠ [])
      (hdigits : ∀ c ∈ digits, c.isDigit) (hgreedy : ∀ c ∈ text.head?, c.isDigit = false)
      (hvalue : Nat.ofDigitChars 10 digits 0 = s.val) (later : Spells text tokens) :
      Spells (digits ++ text) (.signal s :: tokens)

/-! ### Kinds of characters -/

theorem isBlank_of_isDigit {c : Char} (h : c.isDigit) : isBlank c = false := by
  simp only [Char.isDigit, Bool.and_eq_true, decide_eq_true_eq] at h
  simp only [isBlank, Bool.or_eq_false_iff, beq_eq_false_iff_ne]
  refine ⟨⟨⟨⟨?_, ?_⟩, ?_⟩, ?_⟩, ?_⟩ <;> rintro rfl <;> exact absurd h (by decide)

theorem plain_of_ofSymbol? {c : Char} {token : Token} (h : Token.ofSymbol? c = some token) :
    isBlank c = false ∧ c.isDigit = false := by
  unfold Token.ofSymbol? at h
  split at h <;> first | exact ⟨rfl, rfl⟩ | cases h

/-! ### The value of a run of digits -/

theorem le_ofDigitChars (digits : List Char) (n : Nat) : n ≤ Nat.ofDigitChars 10 digits n := by
  induction digits generalizing n with
  | nil => simp
  | cons c digits ih =>
      rw [Nat.ofDigitChars_cons]
      have := ih (10 * n + (c.toNat - '0'.toNat))
      omega

/-- A run is read to its end, or as far as both values are past 255. -/
theorem runValue_cases (value : Nat) (digits : List Char) :
    runValue value digits = (Nat.ofDigitChars 10 digits value, false) ∨
      255 < (runValue value digits).1 ∧ 255 < Nat.ofDigitChars 10 digits value := by
  induction digits generalizing value with
  | nil => left; simp [runValue]
  | cons c digits ih =>
      rw [runValue, Nat.ofDigitChars_cons]
      split
      · rename_i h
        have := le_ofDigitChars digits (10 * value + (c.toNat - '0'.toNat))
        exact .inr ⟨h, by omega⟩
      · rw [show value * 10 + (c.toNat - 48) = 10 * value + (c.toNat - '0'.toNat) by
          rw [Nat.mul_comm]; rfl]
        exact ih _

theorem signalOfRun_eq_ok_iff {digits : List Char} {s : Signal} :
    signalOfRun digits = .ok s ↔ Nat.ofDigitChars 10 digits 0 = s.val := by
  have hs := s.isLt
  unfold signalOfRun
  rcases runValue_cases 0 digits with h | ⟨h, h'⟩
  · rw [h]
    dsimp only
    generalize Nat.ofDigitChars 10 digits 0 = value
    by_cases hv : value < 16
    · simp only [Signal.ofNat?, dif_pos hv, if_neg (show ¬ 255 < value by omega),
        Except.ok.injEq, Fin.ext_iff]
    · rw [Signal.ofNat?, dif_neg hv]
      constructor
      · intro heq
        split at heq <;> cases heq
      · omega
  · generalize runValue 0 digits = r at h
    dsimp only
    rw [if_pos h]
    constructor
    · rintro ⟨⟩
    · omega

/-! ### One step of the scan -/

namespace Cursor

variable {c : Char} {rest : List Char} {position : Nat}

theorem next_nil : (⟨[], position⟩ : Cursor).next = (.endOfText position, ⟨[], position⟩) := rfl

theorem next_blank (h : isBlank c) :
    (⟨c :: rest, position⟩ : Cursor).next = (⟨rest, position + 1⟩ : Cursor).next := by
  have : (⟨c :: rest, position⟩ : Cursor).skipBlanks =
      (⟨rest, position + 1⟩ : Cursor).skipBlanks := by
    simp only [skipBlanks, skip, List.takeWhile_cons, h, if_true, List.length_cons,
      List.drop_succ_cons, Cursor.mk.injEq, true_and]
    omega
  unfold next
  rw [this]

theorem skipBlanks_of_not_blank (h : isBlank c = false) :
    (⟨c :: rest, position⟩ : Cursor).skipBlanks = ⟨c :: rest, position⟩ := by
  simp [skipBlanks, skip, h]

theorem next_symbol {token : Token} (h : Token.ofSymbol? c = some token) :
    (⟨c :: rest, position⟩ : Cursor).next =
      (.lexeme ⟨token, c, position⟩, ⟨rest, position + 1⟩) := by
  obtain ⟨hblank, hdigit⟩ := plain_of_ofSymbol? h
  simp [next, skipBlanks_of_not_blank hblank, hdigit, h, skip]

theorem next_stray (hblank : isBlank c = false) (hdigit : c.isDigit = false)
    (h : Token.ofSymbol? c = none) :
    (⟨c :: rest, position⟩ : Cursor).next =
      (.fault (.stray c position), ⟨c :: rest, position⟩) := by
  simp [next, skipBlanks_of_not_blank hblank, hdigit, h]

theorem takeWhile_run {digits text : List Char} (hdigits : ∀ c ∈ digits, c.isDigit)
    (hgreedy : ∀ c ∈ text.head?, c.isDigit = false) :
    (digits ++ text).takeWhile Char.isDigit = digits := by
  rw [List.takeWhile_append_of_pos hdigits]
  cases text with
  | nil => simp
  | cons c text => simp [hgreedy c rfl]

/-- A run of digits is passed over whole, whether it names a signal or not. -/
theorem next_number {digits text : List Char} (hdigits : ∀ d ∈ c :: digits, d.isDigit)
    (hgreedy : ∀ d ∈ text.head?, d.isDigit = false) :
    (⟨c :: digits ++ text, position⟩ : Cursor).next =
      (match signalOfRun (c :: digits) with
        | .ok s => .lexeme ⟨.signal s, c, position⟩
        | .error fault => .fault fault,
      ⟨text, position + (digits.length + 1)⟩) := by
  have hdigit := hdigits c List.mem_cons_self
  have hrun := takeWhile_run hdigits hgreedy
  rw [List.cons_append] at hrun ⊢
  simp only [next, skipBlanks_of_not_blank (isBlank_of_isDigit hdigit), hdigit, if_true, hrun]
  rw [← List.cons_append, skip, List.drop_left]
  cases signalOfRun (c :: digits) <;> rfl

/-! ### The whole scan -/

theorem scan_eq (cursor : Cursor) :
    cursor.scan = match cursor.next.1 with
      | .endOfText position => ⟨[], .ok position⟩
      | .fault fault => ⟨[], .error fault⟩
      | .lexeme l => ⟨l :: cursor.next.2.scan.lexemes, cursor.next.2.scan.ending⟩ := by
  rw [scan]
  split <;> simp_all

theorem scan_nil : (⟨[], position⟩ : Cursor).scan = ⟨[], .ok position⟩ := by
  rw [scan_eq, next_nil]

theorem scan_blank (h : isBlank c) :
    (⟨c :: rest, position⟩ : Cursor).scan = (⟨rest, position + 1⟩ : Cursor).scan := by
  rw [scan_eq, next_blank h, ← scan_eq]

end Cursor

/-- A scan of a text has found `tokens` and has come to the end without a fault. -/
structure Scan.Finds (scan : Scan) (tokens : List Token) : Prop where
  tokens : scan.lexemes.map Lexeme.token = tokens
  ending : ∃ position, scan.ending = .ok position

theorem finds_of_spells {text : List Char} {tokens : List Token} (h : Spells text tokens)
    (position : Nat) : (⟨text, position⟩ : Cursor).scan.Finds tokens := by
  induction h generalizing position with
  | done =>
      rw [Cursor.scan_nil]
      exact ⟨rfl, position, rfl⟩
  | blank hblank _ ih =>
      rw [Cursor.scan_blank hblank]
      exact ih (position + 1)
  | symbol hsymbol _ ih =>
      obtain ⟨htokens, hending⟩ := ih (position + 1)
      rw [Cursor.scan_eq, Cursor.next_symbol hsymbol]
      exact ⟨by simp [htokens], hending⟩
  | @number digits text s tokens hsome hdigits hgreedy hvalue _ ih =>
      obtain ⟨c, digits, rfl⟩ := List.exists_cons_of_ne_nil hsome
      obtain ⟨htokens, hending⟩ := ih (position + (digits.length + 1))
      rw [Cursor.scan_eq, Cursor.next_number hdigits hgreedy, signalOfRun_eq_ok_iff.2 hvalue]
      exact ⟨by simp [htokens], hending⟩

theorem exists_run (text : List Char) :
    ∃ digits rest, text = digits ++ rest ∧ (∀ c ∈ digits, c.isDigit) ∧
      ∀ c ∈ rest.head?, c.isDigit = false := by
  refine ⟨text.takeWhile Char.isDigit, text.dropWhile Char.isDigit,
    List.takeWhile_append_dropWhile.symm, ?_, ?_⟩
  · exact List.all_eq_true.1 List.all_takeWhile
  · intro c hc
    have := List.head?_dropWhile_not Char.isDigit text
    rw [hc] at this
    exact this

theorem spells_of_finds {text : List Char} {tokens : List Token} {position : Nat}
    (h : (⟨text, position⟩ : Cursor).scan.Finds tokens) : Spells text tokens := by
  -- A run of digits is passed over at once, so the induction is on the length of the text.
  induction hn : text.length using Nat.strongRecOn generalizing text tokens position with
  | ind n ih =>
      obtain ⟨rfl, hending⟩ := h
      cases text with
      | nil =>
          rw [Cursor.scan_nil]
          exact .done
      | cons c rest =>
          simp only [List.length_cons] at hn
          cases hblank : isBlank c with
          | true =>
              rw [Cursor.scan_blank hblank] at hending ⊢
              exact .blank hblank (ih _ (by omega) ⟨rfl, hending⟩ rfl)
          | false =>
              rw [Cursor.scan_eq] at hending ⊢
              cases hdigit : c.isDigit with
              | true =>
                  obtain ⟨digits, text, rfl, hdigits, hgreedy⟩ := exists_run rest
                  rw [List.length_append] at hn
                  have hrun : ∀ d ∈ c :: digits, d.isDigit := by simpa [hdigit] using hdigits
                  rw [← List.cons_append, Cursor.next_number hrun hgreedy] at hending ⊢
                  cases hs : signalOfRun (c :: digits) with
                  | error fault => simp [hs] at hending
                  | ok s =>
                      rw [hs] at hending
                      exact .number (by simp) hrun hgreedy (signalOfRun_eq_ok_iff.1 hs)
                        (ih _ (by omega) ⟨rfl, hending⟩ rfl)
              | false =>
                  cases hsymbol : Token.ofSymbol? c with
                  | none => simp [Cursor.next_stray hblank hdigit hsymbol] at hending
                  | some token =>
                      rw [Cursor.next_symbol hsymbol] at hending ⊢
                      exact .symbol hsymbol (ih _ (by omega) ⟨rfl, hending⟩ rfl)

/-- A scan finds exactly the tokens that the text spells. -/
theorem spells_iff_finds {text : List Char} {tokens : List Token} :
    Spells text tokens ↔ (Cursor.start text).scan.Finds tokens :=
  ⟨fun h => finds_of_spells h 0, spells_of_finds⟩

end TimeSwitch.Formula
