import TimeSwitch.Proofs.Formula.FaultBounds

/-!
What a scan finds in the octets of a text, said without characters: `Munch` takes blanks, then a
symbol or as many digits as stand together, one octet after the other. The scan goes over
characters, and finds the same (`munch_iff`): it always stands where a character begins, since only
octets that are characters by themselves are passed.
-/

namespace TimeSwitch.Formula

open Octets

/-! ### Numbers -/

/-- The digits take a value past 255, and no fewer of them do. -/
structure Passes255 (value : Nat) (digits : List Char) : Prop where
  large : 255 < Nat.ofDigitChars 10 digits value
  shortest : ∀ shorter, shorter <+: digits → shorter ≠ digits →
    Nat.ofDigitChars 10 shorter value ≤ 255

namespace Passes255

variable {c : Char} {value : Nat} {digits : List Char}

theorem nil (h : 255 < value) : Passes255 value [] where
  large := h
  shortest _ hprefix hne := absurd (List.prefix_nil.1 hprefix) hne

theorem cons (h : Passes255 (10 * value + (c.toNat - '0'.toNat)) digits) (hle : value ≤ 255) :
    Passes255 value (c :: digits) where
  large := h.large
  shortest shorter hprefix hne := by
    cases shorter with
    | nil => exact hle
    | cons d shorter =>
        obtain ⟨rfl, hshorter⟩ := List.cons_prefix_cons.1 hprefix
        exact h.shortest shorter hshorter fun heq => hne (by rw [heq])

theorem le_of_cons (h : Passes255 value (c :: digits)) : value ≤ 255 :=
  h.shortest [] List.nil_prefix (by simp)

theorem of_cons (h : Passes255 value (c :: digits)) :
    Passes255 (10 * value + (c.toNat - '0'.toNat)) digits where
  large := h.large
  shortest shorter hprefix hne :=
    h.shortest (c :: shorter) (List.cons_prefix_cons.2 ⟨rfl, hprefix⟩) (by simpa using hne)

end Passes255

theorem exists_passes255 {value : Nat} {digits : List Char}
    (h : 255 < Nat.ofDigitChars 10 digits value) :
    ∃ front more, digits = front ++ more ∧ Passes255 value front := by
  induction digits generalizing value with
  | nil => exact ⟨[], [], rfl, .nil h⟩
  | cons c digits ih =>
      by_cases hle : value ≤ 255
      · obtain ⟨front, more, rfl, hfront⟩ := ih h
        exact ⟨c :: front, more, rfl, hfront.cons hle⟩
      · exact ⟨[], c :: digits, rfl, .nil (Nat.not_le.1 hle)⟩

/-- A run is read up to the first digit that takes it past 255. -/
theorem runValue_of_passes255 {value : Nat} {front : List Char} (h : Passes255 value front)
    (more : List Char) :
    runValue value (front ++ more) = (Nat.ofDigitChars 10 front value, !more.isEmpty) := by
  induction front generalizing value with
  | nil =>
      cases more with
      | nil => rfl
      | cons c more => rw [List.nil_append, runValue, if_pos (show 255 < value from h.large)]; rfl
  | cons c front ih =>
      have hnext := ih h.of_cons
      rw [List.cons_append, runValue, if_neg (Nat.not_lt.2 h.le_of_cons), Nat.mul_comm value]
      exact hnext

/-- Why a run of digits names no signal. -/
inductive Refuses (digits : List Char) : Fault → Prop
  | noSuchSignal (hlarge : 15 < Nat.ofDigitChars 10 digits 0)
      (hle : Nat.ofDigitChars 10 digits 0 ≤ 255) :
      Refuses digits (.noSuchSignal (Nat.ofDigitChars 10 digits 0))
  | numberTooLarge {front more : List Char} (hrun : digits = front ++ more)
      (hfront : Passes255 0 front) :
      Refuses digits (.numberTooLarge (Nat.ofDigitChars 10 front 0) (!more.isEmpty))

theorem Refuses.signalOfRun {digits : List Char} {fault : Fault} (h : Refuses digits fault) :
    signalOfRun digits = .error fault := by
  unfold Formula.signalOfRun
  cases h with
  | noSuchSignal hlarge hle =>
      rcases runValue_cases 0 digits with hvalue | ⟨-, hpast⟩
      · rw [hvalue]
        dsimp only
        rw [if_neg (Nat.not_lt.2 hle), Signal.ofNat?, dif_neg (by omega)]
      · omega
  | numberTooLarge hrun hfront =>
      rw [hrun, runValue_of_passes255 hfront]
      exact if_pos hfront.large

example : signalOfRun "0099999999999".toList = .error (.numberTooLarge 999 true) := by decide

/-- A run of digits names a signal or is refused, for its value alone. -/
theorem signal_or_refuses (digits : List Char) :
    (∃ s : Signal, Nat.ofDigitChars 10 digits 0 = s.val) ∨ ∃ fault, Refuses digits fault := by
  by_cases hsignal : Nat.ofDigitChars 10 digits 0 < 16
  · exact .inl ⟨⟨_, hsignal⟩, rfl⟩
  · by_cases hle : Nat.ofDigitChars 10 digits 0 ≤ 255
    · exact .inr ⟨_, .noSuchSignal (by omega) hle⟩
    · obtain ⟨front, more, hrun, hfront⟩ := exists_passes255 (Nat.not_le.1 hle)
      exact .inr ⟨_, .numberTooLarge hrun hfront⟩

/-! ### Octets as characters -/

/-- The character that an octet is by itself, if it is ASCII. -/
def characterOf (b : UInt8) : Char := Char.ofNat b.toNat

theorem characterOf_ofNat {c : Char} (h : c.toNat < 128) :
    characterOf (UInt8.ofNat c.toNat) = c := by
  have htext := toText_ofText (isAscii_cons.2 ⟨h, isAscii_nil⟩)
  rw [ofText_cons_of_ascii h] at htext
  exact (List.cons.inj htext).1

theorem ofText_characterOf {b : UInt8} (h : (characterOf b).toNat < 128) :
    ofText [characterOf b] = [b] := by
  rw [characterOf, toNat_charOfNat b.toNat_lt] at h
  have hoctets : ∀ octet ∈ [b], octet < 128 := by simpa [UInt8.lt_iff_toNat_lt] using h
  exact ofText_toText hoctets

theorem toNat_lt_of_isBlank {c : Char} (h : isBlank c) : c.toNat < 128 :=
  (isAscii_cons.1 (Spells.blank h .done).isAscii).1

theorem toNat_lt_of_ofSymbol? {c : Char} {token : Token} (h : Token.ofSymbol? c = some token) :
    c.toNat < 128 :=
  (isAscii_cons.1 (Spells.symbol h .done).isAscii).1

theorem toNat_lt_of_isDigit {c : Char} (h : c.isDigit) : c.toNat < 128 :=
  isAscii_of_isDigit (a := [c]) (by simpa using h) c List.mem_cons_self

/-- Text is read off its octets from the front. -/
theorem exists_of_ofText_eq_append {text front : List Char} {rest : Octets}
    (h : ofText text = ofText front ++ rest) :
    ∃ back, text = front ++ back ∧ ofText back = rest := by
  induction front generalizing text with
  | nil => exact ⟨text, rfl, h⟩
  | cons c front ih =>
      rw [ofText_cons, List.append_assoc] at h
      cases text with
      | nil =>
          have hlength := congrArg List.length h
          have hsize := c.utf8Size_pos
          simp only [ofText_nil, List.length_nil, List.length_append,
            String.length_utf8EncodeChar] at hlength
          omega
      | cons d text =>
          rw [ofText_cons] at h
          have hdecoded := congrArg (fun octets => (List.toByteArray octets).utf8DecodeChar? 0) h
          simp only [List.toByteArray_append, ByteArray.utf8DecodeChar?_utf8EncodeChar_append,
            Option.some.injEq] at hdecoded
          subst hdecoded
          obtain ⟨back, rfl, hback⟩ := ih (List.append_cancel_left h)
          exact ⟨back, rfl, hback⟩

/-! ### One step -/

/-- All the digits that stand together at the beginning of some octets. -/
structure IsRun (run rest : Octets) : Prop where
  some : run ≠ []
  digits : ∀ b ∈ run, (characterOf b).isDigit
  greedy : ∀ b ∈ rest.head?, (characterOf b).isDigit = false

/-- What stands next in the octets of a text, the first of which has the position given; behind it
are the position where to go on and the octets from there. A number is passed even when it is
refused; a character that begins no token is not, whatever its octets. -/
inductive Munch : Nat → Octets → Scanned → Nat → Octets → Prop
  | endOfText {position : Nat} : Munch position [] (.endOfText position) position []
  | blank {position stop : Nat} {b : UInt8} {rest left : Octets} {found : Scanned}
      (hblank : isBlank (characterOf b)) (later : Munch (position + 1) rest found stop left) :
      Munch position (b :: rest) found stop left
  | symbol {position : Nat} {b : UInt8} {rest : Octets} {token : Token}
      (hsymbol : Token.ofSymbol? (characterOf b) = some token) :
      Munch position (b :: rest) (.lexeme ⟨token, characterOf b, position⟩) (position + 1) rest
  | number {position : Nat} {b : UInt8} {run rest : Octets} {s : Signal}
      (hrun : IsRun (b :: run) rest)
      (hvalue : Nat.ofDigitChars 10 (toText (b :: run)) 0 = s.val) :
      Munch position (b :: run ++ rest) (.lexeme ⟨.signal s, characterOf b, position⟩)
        (position + (run.length + 1)) rest
  | refused {position : Nat} {b : UInt8} {run rest : Octets} {fault : Fault}
      (hrun : IsRun (b :: run) rest) (hrefused : Refuses (toText (b :: run)) fault) :
      Munch position (b :: run ++ rest) (.fault fault) (position + (run.length + 1)) rest
  | stray {position : Nat} {c : Char} {rest : Octets} (hblank : isBlank c = false)
      (hdigit : c.isDigit = false) (hsymbol : Token.ofSymbol? c = none) :
      Munch position (String.utf8EncodeChar c ++ rest) (.fault (.stray c position)) position
        (String.utf8EncodeChar c ++ rest)

/-- An ASCII octet in front of a text is the first character of it. -/
theorem exists_of_ofText_eq_cons {text : List Char} {b : UInt8} {rest : Octets}
    (hb : (characterOf b).toNat < 128) (h : ofText text = b :: rest) :
    ∃ back, text = characterOf b :: back ∧ ofText back = rest := by
  rw [← List.singleton_append, ← ofText_characterOf hb] at h
  exact exists_of_ofText_eq_append h

/-- Where a text does not begin with a digit, its octets do not. -/
theorem greedy_ofText_iff {text : List Char} :
    (∀ b ∈ (ofText text).head?, (characterOf b).isDigit = false) ↔
      ∀ c ∈ text.head?, c.isDigit = false := by
  constructor
  · intro h c hc
    obtain ⟨text, rfl⟩ := List.head?_eq_some_iff.1 hc
    by_contra hdigit
    rw [Bool.not_eq_false] at hdigit
    have hascii := toNat_lt_of_isDigit hdigit
    have hnone := h (UInt8.ofNat c.toNat) (by rw [ofText_cons_of_ascii hascii]; rfl)
    rw [characterOf_ofNat hascii, hdigit] at hnone
    cases hnone
  · intro h b hb
    obtain ⟨rest, hrest⟩ := List.head?_eq_some_iff.1 hb
    by_contra hdigit
    rw [Bool.not_eq_false] at hdigit
    obtain ⟨back, rfl, -⟩ := exists_of_ofText_eq_cons (toNat_lt_of_isDigit hdigit) hrest
    have hnone := h _ rfl
    rw [hdigit] at hnone
    cases hnone

theorem IsRun.ofText_toText {run rest : Octets} (h : IsRun run rest) :
    ofText (toText run) = run := by
  refine Octets.ofText_toText fun b hb => ?_
  have hascii := toNat_lt_of_isDigit (h.digits b hb)
  rw [characterOf, toNat_charOfNat b.toNat_lt] at hascii
  exact UInt8.lt_iff_toNat_lt.2 hascii

theorem IsRun.isDigit_toText {run rest : Octets} (h : IsRun run rest) :
    ∀ c ∈ toText run, c.isDigit := by
  rw [toText, List.forall_mem_map]
  exact h.digits

theorem isRun_ofText {c : Char} {digits text : List Char} (hdigits : ∀ d ∈ c :: digits, d.isDigit)
    (hgreedy : ∀ d ∈ text.head?, d.isDigit = false) :
    IsRun (UInt8.ofNat c.toNat :: ofText digits) (ofText text) := by
  have hascii := isAscii_of_isDigit hdigits
  refine ⟨List.cons_ne_nil _ _, ?_, greedy_ofText_iff.2 hgreedy⟩
  rw [← ofText_cons_of_ascii (isAscii_cons.1 hascii).1, ofText_eq_map hascii, List.forall_mem_map]
  intro d hd
  rw [characterOf_ofNat (hascii d hd)]
  exact hdigits d hd

theorem IsRun.next {position : Nat} {b : UInt8} {run : Octets} {text : List Char}
    (h : IsRun (b :: run) (ofText text)) :
    (⟨toText (b :: run) ++ text, position⟩ : Cursor).next =
      (match signalOfRun (toText (b :: run)) with
        | .ok s => .lexeme ⟨.signal s, characterOf b, position⟩
        | .error fault => .fault fault,
      ⟨text, position + (run.length + 1)⟩) := by
  have hnext := @Cursor.next_number (characterOf b) position (toText run) text h.isDigit_toText
    (greedy_ofText_iff.1 h.greedy)
  rwa [show (toText run).length = run.length from List.length_map _] at hnext

/-- What is found in the octets of a text, the scan of the text finds. -/
theorem Munch.next {position stop : Nat} {octets left : Octets} {found : Scanned}
    (h : Munch position octets found stop left) {text : List Char} (htext : ofText text = octets) :
    ∃ back, (⟨text, position⟩ : Cursor).next = (found, ⟨back, stop⟩) ∧ ofText back = left := by
  induction h generalizing text with
  | endOfText =>
      cases text with
      | nil => exact ⟨[], rfl, rfl⟩
      | cons c text => simp at htext
  | blank hblank _ ih =>
      obtain ⟨text, rfl, hrest⟩ := exists_of_ofText_eq_cons (toNat_lt_of_isBlank hblank) htext
      rw [Cursor.next_blank hblank]
      exact ih hrest
  | symbol hsymbol =>
      obtain ⟨text, rfl, hrest⟩ := exists_of_ofText_eq_cons (toNat_lt_of_ofSymbol? hsymbol) htext
      exact ⟨text, Cursor.next_symbol hsymbol, hrest⟩
  | number hrun hvalue =>
      rw [← hrun.ofText_toText] at htext
      obtain ⟨text, rfl, rfl⟩ := exists_of_ofText_eq_append htext
      rw [hrun.next, signalOfRun_eq_ok_iff.2 hvalue]
      exact ⟨text, rfl, rfl⟩
  | refused hrun hrefused =>
      rw [← hrun.ofText_toText] at htext
      obtain ⟨text, rfl, rfl⟩ := exists_of_ofText_eq_append htext
      rw [hrun.next, hrefused.signalOfRun]
      exact ⟨text, rfl, rfl⟩
  | @stray position c rest hblank hdigit hsymbol =>
      obtain ⟨text, rfl, hrest⟩ := @exists_of_ofText_eq_append _ [c] rest
        (by rw [htext, ofText_cons, ofText_nil, List.append_nil])
      refine ⟨c :: text, Cursor.next_stray hblank hdigit hsymbol, ?_⟩
      rw [ofText_cons, hrest]

/-- Something is found in the octets of every text: what the scan finds. -/
theorem munch_next (text : List Char) (position : Nat) :
    Munch position (ofText text) (⟨text, position⟩ : Cursor).next.1
      (⟨text, position⟩ : Cursor).next.2.position
      (ofText (⟨text, position⟩ : Cursor).next.2.rest) := by
  induction text generalizing position with
  | nil => exact .endOfText
  | cons c text ih =>
      cases hblank : isBlank c with
      | true =>
          have hascii := toNat_lt_of_isBlank hblank
          rw [Cursor.next_blank hblank, ofText_cons_of_ascii hascii]
          refine .blank ?_ (ih (position + 1))
          rwa [characterOf_ofNat hascii]
      | false =>
          cases hdigit : c.isDigit with
          | true =>
              obtain ⟨digits, text, rfl, hdigits, hgreedy⟩ := exists_run text
              have hwhole : ∀ d ∈ c :: digits, d.isDigit := by simpa [hdigit] using hdigits
              have hascii := isAscii_of_isDigit hwhole
              have hrun := isRun_ofText hwhole hgreedy
              -- the run is the same in octets and in characters
              have hoctets := @ofText_cons_of_ascii digits c (isAscii_cons.1 hascii).1
              have htext := toText_ofText hascii
              rw [hoctets] at htext
              have hnext := @IsRun.next position _ _ _ hrun
              rw [htext] at hnext
              rw [← List.cons_append, hnext, ofText_append, hoctets]
              obtain ⟨s, hvalue⟩ | ⟨fault, hrefused⟩ := signal_or_refuses (c :: digits)
              · rw [signalOfRun_eq_ok_iff.2 hvalue]
                exact .number hrun (htext ▸ hvalue)
              · rw [hrefused.signalOfRun]
                exact .refused hrun (htext ▸ hrefused)
          | false =>
              cases hsymbol : Token.ofSymbol? c with
              | none =>
                  rw [Cursor.next_stray hblank hdigit hsymbol, ofText_cons]
                  exact .stray hblank hdigit hsymbol
              | some token =>
                  have hascii := toNat_lt_of_ofSymbol? hsymbol
                  have hmunch := @Munch.symbol position (UInt8.ofNat c.toNat) (ofText text) token
                  rw [characterOf_ofNat hascii] at hmunch
                  rw [Cursor.next_symbol hsymbol, ofText_cons_of_ascii hascii]
                  exact hmunch hsymbol

theorem munch_iff (c : Cursor) {found : Scanned} {stop : Nat} {left : Octets} :
    Munch c.position (ofText c.rest) found stop left ↔
      c.next.1 = found ∧ c.next.2.position = stop ∧ ofText c.next.2.rest = left := by
  constructor
  · intro h
    obtain ⟨back, hnext, hback⟩ := h.next rfl
    rw [hnext]
    exact ⟨rfl, rfl, hback⟩
  · rintro ⟨rfl, rfl, rfl⟩
    exact munch_next c.rest c.position

/-- Where the octets found stand in a text: those passed are gone from what is left, and a lexeme
has the octet at its position for its symbol. -/
theorem Munch.placed {position stop : Nat} {octets left : Octets} {found : Scanned}
    (h : Munch position octets found stop left) {before : Octets} (hbefore : before.length = position) :
    (∃ passed, octets = passed ++ left ∧ stop = position + passed.length) ∧
      ∀ l, found = .lexeme l → position ≤ l.position ∧ l.position < stop ∧
        ∃ b, (before ++ octets)[l.position]? = some b ∧ l.symbol = characterOf b := by
  induction h generalizing before with
  | endOfText => exact ⟨⟨[], rfl, rfl⟩, nofun⟩
  | @blank position stop b rest left found hblank _ ih =>
      obtain ⟨⟨passed, hpassed, hstop⟩, hlexeme⟩ :=
        @ih (before ++ [b]) (by rw [List.length_append, List.length_singleton, hbefore])
      refine ⟨⟨b :: passed, by rw [hpassed, List.cons_append], ?_⟩, fun l hl => ?_⟩
      · rw [hstop, List.length_cons]
        omega
      · obtain ⟨hle, hlt, hsymbol⟩ := hlexeme l hl
        rw [List.append_assoc, List.singleton_append] at hsymbol
        exact ⟨by omega, hlt, hsymbol⟩
  | @symbol position b rest token hsymbol =>
      refine ⟨⟨[b], rfl, rfl⟩, ?_⟩
      rintro l ⟨⟩
      refine ⟨Nat.le_refl _, Nat.lt_succ_self _, b, ?_, rfl⟩
      rw [← hbefore, List.getElem?_append_right (Nat.le_refl _), Nat.sub_self]
      rfl
  | @number position b run rest s hrun hvalue =>
      refine ⟨⟨b :: run, rfl, rfl⟩, ?_⟩
      rintro l ⟨⟩
      refine ⟨Nat.le_refl _, by dsimp only; omega, b, ?_, rfl⟩
      rw [← hbefore, List.getElem?_append_right (Nat.le_refl _), Nat.sub_self]
      rfl
  | @refused position b run rest fault hrun hrefused => exact ⟨⟨b :: run, rfl, rfl⟩, nofun⟩
  | stray => exact ⟨⟨[], rfl, rfl⟩, nofun⟩

/-! ### All steps -/

/-- The lexemes in the octets of a text from a position on, one behind the other, and what ends
them. -/
inductive Tokenises : Nat → Octets → List Lexeme → Except Fault Nat → Prop
  | ended {position place stop : Nat} {octets left : Octets}
      (hfound : Munch position octets (.endOfText place) stop left) :
      Tokenises position octets [] (.ok place)
  | failed {position stop : Nat} {octets left : Octets} {fault : Fault}
      (hfound : Munch position octets (.fault fault) stop left) :
      Tokenises position octets [] (.error fault)
  | lexeme {position stop : Nat} {octets left : Octets} {l : Lexeme} {lexemes : List Lexeme}
      {ending : Except Fault Nat} (hfound : Munch position octets (.lexeme l) stop left)
      (later : Tokenises stop left lexemes ending) :
      Tokenises position octets (l :: lexemes) ending

theorem Tokenises.scan {position : Nat} {octets : Octets} {lexemes : List Lexeme}
    {ending : Except Fault Nat} (h : Tokenises position octets lexemes ending) {text : List Char}
    (htext : ofText text = octets) : (⟨text, position⟩ : Cursor).scan = ⟨lexemes, ending⟩ := by
  induction h generalizing text with
  | ended hfound | failed hfound =>
      obtain ⟨back, hnext, -⟩ := hfound.next htext
      rw [Cursor.scan_eq, hnext]
  | lexeme hfound _ ih =>
      obtain ⟨back, hnext, hback⟩ := hfound.next htext
      rw [Cursor.scan_eq, hnext]
      dsimp only
      rw [ih hback]

theorem tokenises_scan (c : Cursor) :
    Tokenises c.position (ofText c.rest) c.scan.lexemes c.scan.ending := by
  induction hlength : c.rest.length using Nat.strongRecOn generalizing c with
  | ind n ih =>
      have hmunch := munch_next c.rest c.position
      rw [Cursor.scan_eq]
      cases hfound : c.next.1 with
      | endOfText place =>
          rw [hfound] at hmunch
          exact .ended hmunch
      | fault fault =>
          rw [hfound] at hmunch
          exact .failed hmunch
      | lexeme l =>
          rw [hfound] at hmunch
          exact .lexeme hmunch (ih _ (hlength ▸ Cursor.length_rest_next_lt hfound) _ rfl)

theorem tokenises_iff (c : Cursor) {lexemes : List Lexeme} {ending : Except Fault Nat} :
    Tokenises c.position (ofText c.rest) lexemes ending ↔ c.scan = ⟨lexemes, ending⟩ := by
  constructor
  · exact fun h => h.scan rfl
  · intro h
    have hscan := tokenises_scan c
    rwa [h] at hscan

/-- Lexemes stand one behind the other, each where its symbol is. -/
theorem Tokenises.placed {position : Nat} {octets : Octets} {lexemes : List Lexeme}
    {ending : Except Fault Nat} (h : Tokenises position octets lexemes ending) {before : Octets}
    (hbefore : before.length = position) :
    lexemes.Pairwise (fun l later => l.position < later.position) ∧
      ∀ l ∈ lexemes, position ≤ l.position ∧
        ∃ b, (before ++ octets)[l.position]? = some b ∧ l.symbol = characterOf b := by
  induction h generalizing before with
  | ended | failed => exact ⟨.nil, nofun⟩
  | @lexeme position stop octets left l lexemes ending hfound _ ih =>
      obtain ⟨⟨passed, rfl, rfl⟩, hlexeme⟩ := hfound.placed hbefore
      obtain ⟨hle, hlt, hsymbol⟩ := hlexeme l rfl
      obtain ⟨hpairwise, hlater⟩ :=
        @ih (before ++ passed) (by rw [List.length_append, hbefore])
      rw [List.append_assoc] at hlater
      refine ⟨List.pairwise_cons.2 ⟨fun m hm => ?_, hpairwise⟩,
        List.forall_mem_cons.2 ⟨⟨hle, hsymbol⟩, fun m hm => ?_⟩⟩
      · have := (hlater m hm).1
        omega
      · exact ⟨by have := (hlater m hm).1; omega, (hlater m hm).2⟩

/-! ### Where the scan stands -/

namespace Cursor

/-- The cursor stands in the text between two characters. -/
def StandsIn (c : Cursor) (text : List Char) : Prop :=
  ∃ before, text = before ++ c.rest ∧ (ofText before).length = c.position

/-- The cursor that many calls on, whatever was found. -/
def after : Nat → Cursor → Cursor
  | 0, c => c
  | n + 1, c => after n c.next.2

variable {c : Cursor} {text : List Char}

theorem standsIn_skip (h : c.StandsIn text) {taken : List Char} (htaken : taken <+: c.rest)
    (hascii : IsAscii taken) : (c.skip taken).StandsIn text := by
  obtain ⟨before, htext, hposition⟩ := h
  obtain ⟨rest, hrest⟩ := htaken
  refine ⟨before ++ taken, ?_, ?_⟩
  · rw [skip, ← hrest, List.drop_left, List.append_assoc, hrest]
    exact htext
  · rw [ofText_append, List.length_append, hposition, length_ofText hascii]
    rfl

theorem standsIn_next (h : c.StandsIn text) : c.next.2.StandsIn text := by
  have hblanks : IsAscii (c.rest.takeWhile isBlank) := fun d hd =>
    toNat_lt_of_isBlank (List.mem_takeWhile_imp hd)
  have hhere : c.skipBlanks.StandsIn text := standsIn_skip h (List.takeWhile_prefix _) hblanks
  rw [next]
  dsimp only
  generalize c.skipBlanks = here at hhere ⊢
  obtain ⟨_ | ⟨symbol, rest⟩, position⟩ := here
  · exact hhere
  · dsimp only
    split
    · have hdigits : IsAscii ((symbol :: rest).takeWhile Char.isDigit) :=
        isAscii_of_isDigit fun d => List.mem_takeWhile_imp
      have hskip := standsIn_skip hhere (List.takeWhile_prefix Char.isDigit) hdigits
      split
      · exact hskip
      · exact hskip
    · split
      · rename_i token htoken
        exact standsIn_skip hhere (List.prefix_append [symbol] rest)
          (isAscii_cons.2 ⟨toNat_lt_of_ofSymbol? htoken, isAscii_nil⟩)
      · exact hhere

theorem standsIn_after (h : c.StandsIn text) (n : Nat) : (c.after n).StandsIn text := by
  induction n generalizing c with
  | zero => exact h
  | succ n ih => exact ih (standsIn_next h)

theorem standsIn_start (text : List Char) : (start text).StandsIn text := ⟨[], rfl, rfl⟩

end Cursor

/-- The lexemes of a text are those found in its octets by longest match, up to the end or the first
fault. They stand one behind the other, each where its symbol is. Whatever was found before, every
call finds what stands next in the octets and stops between two characters. The value of a number
stays small while its digits are read. -/
theorem scan_finds_longest_match (text : String) :
    (∀ lexemes ending, (Cursor.start text.toList).scan = ⟨lexemes, ending⟩ ↔
        Tokenises 0 (ofText text.toList) lexemes ending) ∧
      (Cursor.start text.toList).scan.lexemes.Pairwise
        (fun l later => l.position < later.position) ∧
      (∀ l ∈ (Cursor.start text.toList).scan.lexemes,
        ∃ b, (ofText text.toList)[l.position]? = some b ∧ l.symbol = characterOf b) ∧
      (∀ n, let here := (Cursor.start text.toList).after n
        here.StandsIn text.toList ∧ here.next.2.StandsIn text.toList ∧
          ∀ found stop left, Munch here.position (ofText here.rest) found stop left ↔
            here.next.1 = found ∧ here.next.2.position = stop ∧ ofText here.next.2.rest = left) ∧
      ∀ digits : List Char, (∀ c ∈ digits, c.isDigit) → (runValue 0 digits).1 < 2 ^ 32 := by
  have htokens := tokenises_scan (.start text.toList)
  obtain ⟨hpairwise, hplaced⟩ := @Tokenises.placed _ _ _ _ htokens [] rfl
  refine ⟨fun lexemes ending => (tokenises_iff _).symm, hpairwise, fun l hl => (hplaced l hl).2,
    fun n => ?_, fun digits hdigits => ?_⟩
  · have hstands := Cursor.standsIn_after (Cursor.standsIn_start text.toList) n
    exact ⟨hstands, Cursor.standsIn_next hstands, fun _ _ _ => munch_iff _⟩
  · have hsmall := runValue_lt hdigits (show 0 < 10 ^ 4 by decide)
    omega

end TimeSwitch.Formula
