import TimeSwitch.Proofs.Formula.Parsing

/-!
Short texts. Reading takes at most two nodes and opens at most three levels for each lexeme, a few
more at the ends, and a lexeme takes an octet at least. So while a text with few octets is read
neither limit gets in the way, whether it is a sentence or not, and it is accepted if it is one.
Levels are what would run out first, as they do in a text that only opens groups.
-/

namespace TimeSwitch.Formula

open Sequence

/-! ### What is scanned -/

theorem length_lexemes_scan_le (c : Cursor) : c.scan.lexemes.length ≤ c.rest.length := by
  induction hlength : c.rest.length using Nat.strongRecOn generalizing c with
  | ind n ih =>
      rw [Cursor.scan]
      split
      · exact Nat.zero_le n
      · exact Nat.zero_le n
      · rename_i l hnext
        have hlt := Cursor.length_rest_next_lt hnext
        exact Nat.lt_of_le_of_lt (ih _ (hlength ▸ hlt) _ rfl) (hlength ▸ hlt)

/-- A lexeme takes an octet at least. -/
theorem length_lexemes_le (text : String) :
    (Cursor.start text.toList).scan.lexemes.length ≤ text.utf8ByteSize :=
  (length_lexemes_scan_le _).trans (Octets.length_toList_le text)

theorem signalOfRun_ne_tooManyNodes (digits : List Char) :
    signalOfRun digits ≠ .error .tooManyNodes := by
  unfold signalOfRun
  dsimp only
  split
  · nofun
  · split <;> nofun

/-- Numbers and strange characters are at fault while scanning, never the nodes. -/
theorem next_ne_tooManyNodes (c : Cursor) : c.next.1 ≠ .fault .tooManyNodes := by
  unfold Cursor.next
  dsimp only
  split
  · nofun
  · split
    · have hrun := signalOfRun_ne_tooManyNodes (c.skipBlanks.rest.takeWhile Char.isDigit)
      split
      · nofun
      · rename_i fault hfault
        intro h
        rw [hfault, Scanned.fault.inj h] at hrun
        exact hrun rfl
    · split <;> nofun

theorem ending_scan_ne (c : Cursor) : c.scan.ending ≠ .error .tooManyNodes := by
  induction hlength : c.rest.length using Nat.strongRecOn generalizing c with
  | ind n ih =>
      rw [Cursor.scan]
      split
      · nofun
      · rename_i fault hnext
        intro h
        rw [Except.error.inj h] at hnext
        exact next_ne_tooManyNodes c hnext
      · rename_i l hnext
        exact ih _ (hlength ▸ Cursor.length_rest_next_lt hnext) _ rfl

namespace Phrase

/-! ### Readings that the limits spare

Each lexeme stands for two nodes that may still be taken. -/

/-- At most `left` lexemes are left, and they and the nodes used so far are below the budget. -/
structure Within (left budget : Nat) (scan : Scan) (used : Nat) : Prop where
  ending : scan.ending ≠ .error .tooManyNodes
  left : scan.lexemes.length ≤ left
  used : used + 2 * scan.lexemes.length < budget

/-- The reading did not fail for want of nodes or levels, and what it came to is within the
budget. -/
inductive Spared (left budget : Nat) : Except Fault (Read k) → Prop
  | read {r : Read k} (h : Within left budget r.scan r.used) : Spared left budget (.ok r)
  | fault {fault : Fault} (h : fault ≠ .tooManyNodes) : Spared left budget (.error fault)

section

variable {k k₁ k₂ : Category} {left left' budget budget' used : Nat} {scan : Scan}

theorem Spared.mono {result : Except Fault (Read k)} (h : Spared left budget result)
    (hleft : left ≤ left') (hbudget : budget ≤ budget') : Spared left' budget' result := by
  cases h with
  | read h => exact .read ⟨h.ending, h.left.trans hleft, Nat.lt_of_lt_of_le h.used hbudget⟩
  | fault h => exact .fault h

theorem spared_bind {result : Except Fault (Read k₁)} {next : Read k₁ → Except Fault (Read k₂)}
    (h : Spared left budget result)
    (hnext : ∀ r : Read k₁, Within left budget r.scan r.used → Spared left' budget' (next r)) :
    Spared left' budget' (result >>= next) := by
  cases h with
  | read h => exact hnext _ h
  | fault h => exact .fault h

theorem spared_node {p : Phrase k} (h : Within left budget scan used)
    (hnodes : budget ≤ nodeLimit) :
    Spared left (budget + 1) (do let used ← takeNode used; return ⟨p, scan, used⟩) := by
  have hused := h.used
  rw [takeNode_of_lt (by omega)]
  refine .read ⟨h.ending, h.left, ?_⟩
  show used + 1 + 2 * scan.lexemes.length < budget + 1
  omega

/-- Two parts read one after the other, as `outcome_pair` has them. -/
theorem spared_pair {build : Phrase k₁ → Phrase k₂ → Phrase k}
    {readFirst : Except Fault (Read k₁)} {readSecond : Read k₁ → Except Fault (Read k₂)}
    (hfirst : Spared left budget readFirst)
    (hsecond : ∀ r : Read k₁, Within left budget r.scan r.used →
      Spared left' budget' (readSecond r))
    (hnodes : budget' ≤ nodeLimit) :
    Spared left' (budget' + 1) (do
      let first ← readFirst
      let second ← readSecond first
      let used ← takeNode second.used
      return ⟨build first.phrase second.phrase, second.scan, used⟩) :=
  spared_bind hfirst fun first h => spared_bind (hsecond first h) fun _ h' => spared_node h' hnodes

/-- Past a lexeme there are two more nodes. -/
theorem spared_moveTo {l : Lexeme} {rest : List Lexeme} {next : Scan → Except Fault (Read k)}
    (h : Within left budget scan used) (hlexemes : scan.lexemes = l :: rest)
    (hnext : ∀ moved, 1 ≤ left → 2 < budget → Within (left - 1) (budget - 2) moved used →
      Spared left' budget' (next moved)) :
    Spared left' budget' (scan.moveTo rest >>= next) := by
  obtain ⟨hending, hleft, hused⟩ := h
  obtain ⟨lexemes, ending⟩ := scan
  obtain rfl : lexemes = l :: rest := hlexemes
  simp only [List.length_cons] at hending hleft hused
  have hmoved : Within (left - 1) (budget - 2) ⟨rest, ending⟩ used :=
    ⟨hending, by simp only; omega, by simp only; omega⟩
  have hspared := hnext _ (by omega) (by omega) hmoved
  cases rest with
  | cons l rest => exact hspared
  | nil =>
      cases ending with
      | ok position => exact hspared
      | error fault => exact .fault fun heq => hending (congrArg _ heq)

theorem ready_ne (h : Within left budget scan used) : scan.ready ≠ .error .tooManyNodes := by
  obtain ⟨hending, -, -⟩ := h
  unfold Scan.ready
  split
  · rename_i fault _ heq
    exact fun hfault => hending (heq.trans (congrArg _ (Except.error.inj hfault)))
  · nofun

theorem unexpectedHere_ne (h : Within left budget scan used) :
    scan.unexpectedHere ≠ .tooManyNodes := by
  obtain ⟨hending, -, -⟩ := h
  unfold Scan.unexpectedHere
  split
  · nofun
  · nofun
  · rename_i fault _ heq
    exact fun hfault => hending (heq.trans (congrArg _ hfault))

theorem unclosedHere_ne (h : Within left budget scan used) :
    scan.unclosedHere ≠ .tooManyNodes := by
  obtain ⟨hending, -, -⟩ := h
  unfold Scan.unclosedHere
  split
  · nofun
  · nofun
  · rename_i fault _ heq
    exact fun hfault => hending (heq.trans (congrArg _ hfault))

end

/-! ### Levels and nodes that suffice -/

/-- The readings that are spared while no more than so many levels may be open. -/
structure SparesAll (levels : Nat) : Prop where
  expression : ∀ {left budget used : Nat} {scan : Scan}, Within left budget scan used →
    3 * left + 2 ≤ levels → budget + 2 ≤ nodeLimit →
      Spared (left - 1) (budget + 3) (readExpression levels scan used)
  moreChains : ∀ {left budget used : Nat} {scan : Scan}, Within left budget scan used →
    3 * left ≤ levels → budget ≤ nodeLimit →
      Spared left (budget + 1) (readMoreChains levels scan used)
  chain : ∀ {left budget used : Nat} {scan : Scan}, Within left budget scan used →
    3 * left + 1 ≤ levels → budget ≤ nodeLimit →
      Spared (left - 1) (budget + 1) (readChain levels scan used)
  moreFactors : ∀ {left budget used : Nat} {scan : Scan}, Within left budget scan used →
    3 * left ≤ levels → budget ≤ nodeLimit →
      Spared left (budget + 1) (readMoreFactors levels scan used)
  /-- The lexemes of a factor pay for one node more than it takes. -/
  factor : ∀ {left budget used : Nat} {scan : Scan}, Within left budget scan used →
    3 * left ≤ levels → budget ≤ nodeLimit →
      Spared (left - 1) (budget - 1) (readFactor levels scan used)

/-- Without levels nothing can be left to read. -/
theorem sparesAll_zero : SparesAll 0 where
  expression _ hlevels := absurd hlevels (by omega)
  chain _ hlevels := absurd hlevels (by omega)
  moreChains {left _ _ scan} h hlevels hnodes := by
    obtain ⟨_ | ⟨l, rest⟩, ending⟩ := scan
    · exact spared_node h hnodes
    · exact absurd h.left (by simp only [List.length_cons]; omega)
  moreFactors {left _ _ scan} h hlevels hnodes := by
    obtain ⟨_ | ⟨l, rest⟩, ending⟩ := scan
    · exact spared_node h hnodes
    · exact absurd h.left (by simp only [List.length_cons]; omega)
  factor {left _ _ scan} h hlevels _ := by
    obtain ⟨_ | ⟨l, rest⟩, ending⟩ := scan
    · exact .fault (unexpectedHere_ne h)
    · exact absurd h.left (by simp only [List.length_cons]; omega)

/-- A phrase is read from parts that have one level less. -/
theorem sparesAll_succ {levels : Nat} (ih : SparesAll levels) : SparesAll (levels + 1) where
  expression h _ _ :=
    spared_pair (ih.chain h (by omega) (by omega))
      (fun _ hr => ih.moreChains hr (by omega) (by omega)) (by omega)
  moreChains h _ _ := by
    rw [readMoreChains]
    split
    · rename_i hlexemes
      refine spared_moveTo h hlexemes fun moved hleft hbudget hmoved => ?_
      have hpair := @spared_pair _ _ _ _ _ _ _ Phrase.and _ _
        (ih.chain hmoved (by omega) (by omega))
        (fun _ hr => ih.moreChains hr (by omega) (by omega)) (by omega)
      exact hpair.mono (by omega) (by omega)
    · exact spared_node h (by omega)
  chain h _ _ := by
    have hused := h.used
    have hpair := @spared_pair _ _ _ _ _ _ _ Phrase.chain _ _ (ih.factor h (by omega) (by omega))
      (fun _ hr => ih.moreFactors hr (by omega) (by omega)) (by omega)
    exact hpair.mono (Nat.le_refl _) (by omega)
  moreFactors h _ _ := by
    rw [readMoreFactors]
    split
    · rename_i hlexemes
      refine spared_moveTo h hlexemes fun moved hleft hbudget hmoved => ?_
      have hpair := @spared_pair _ _ _ _ _ _ _ Phrase.or _ _
        (ih.factor hmoved (by omega) (by omega))
        (fun _ hr => ih.moreFactors hr (by omega) (by omega)) (by omega)
      exact hpair.mono (by omega) (by omega)
    · exact spared_node h (by omega)
  factor h _ _ := by
    rw [readFactor]
    split
    · rename_i hlexemes
      refine spared_moveTo h hlexemes fun moved hleft hbudget hmoved => ?_
      -- the lexemes at both ends pay for what an expression takes besides its own lexemes
      refine spared_bind (ih.expression hmoved (by omega) (by omega)) fun inner hinner => ?_
      split
      · rename_i hclose
        refine spared_moveTo hinner hclose fun closed hleft hbudget hclosed => ?_
        exact Spared.mono (.read hclosed) (by omega) (by omega)
      · exact .fault (unclosedHere_ne hinner)
    · rename_i hlexemes
      refine spared_moveTo h hlexemes fun moved hleft hbudget hmoved => ?_
      refine spared_bind (ih.factor hmoved (by omega) (by omega)) fun operand hoperand => ?_
      exact (spared_node hoperand (by omega)).mono (by omega) (by omega)
    · rename_i hlexemes
      refine spared_moveTo h hlexemes fun moved hleft hbudget hmoved => ?_
      exact (spared_node hmoved (by omega)).mono (by omega) (by omega)
    · rename_i hlexemes
      refine spared_moveTo h hlexemes fun moved hleft hbudget hmoved => ?_
      exact (spared_node hmoved (by omega)).mono (by omega) (by omega)
    · exact .fault (unexpectedHere_ne h)

theorem sparesAll (levels : Nat) : SparesAll levels := by
  induction levels with
  | zero => exact sparesAll_zero
  | succ levels ih => exact sparesAll_succ ih

theorem parse_ne_tooManyNodes {text : List Char} {length : Nat}
    (hlength : (Cursor.start text).scan.lexemes.length ≤ length) (h : 3 * length + 2 ≤ nodeLimit) :
    parse text ≠ .error .tooManyNodes := by
  have hscan : Within length (2 * length + 1) (Cursor.start text).scan 0 :=
    ⟨ending_scan_ne _, hlength, by omega⟩
  have hread := (sparesAll nodeLimit).expression hscan h (by simp only [nodeLimit] at *; omega)
  unfold parse
  generalize (Cursor.start text).scan = scan at hscan hread ⊢
  cases hready : scan.ready with
  | error fault =>
      intro hfault
      rw [Except.error.inj hfault] at hready
      exact ready_ne hscan hready
  | ok started =>
      obtain rfl := eq_of_ready hready
      rw [ok_bind]
      generalize readExpression nodeLimit started 0 = result at hread ⊢
      cases hread with
      | fault hfault => exact fun heq => hfault (Except.error.inj heq)
      | read hr =>
          rw [ok_bind]
          split
          · nofun
          · exact fun heq => unexpectedHere_ne hr (Except.error.inj heq)

end Phrase

/-- Of a text with few octets the limits decide nothing. -/
theorem parse_ne_tooManyNodes_of_short {text : String}
    (h : 3 * text.utf8ByteSize + 2 ≤ nodeLimit) :
    Expression.parse text ≠ .error .tooManyNodes := by
  have hparse := Phrase.parse_ne_tooManyNodes (length_lexemes_le text) h
  rw [Expression.parse]
  intro hexhausted
  cases hphrase : Phrase.parse text.toList with
  | ok p =>
      rw [hphrase] at hexhausted
      cases hexhausted
  | error fault =>
      rw [hphrase] at hexhausted hparse
      exact hparse (congrArg _ (Except.error.inj hexhausted))

/-- A text with few octets is accepted if and only if it is a sentence. -/
theorem exists_parse_iff_of_short {text : String} (h : 3 * text.utf8ByteSize + 2 ≤ nodeLimit) :
    (∃ e, Expression.parse text = .ok e) ↔ ∃ s, IsSentence text s := by
  constructor
  · rintro ⟨e, he⟩
    obtain ⟨p, -, -, hfinds⟩ := Expression.exists_phrase_of_parse he
    exact ⟨p.sentence, isSentence_iff.2 ⟨p, rfl, hfinds⟩⟩
  · rintro ⟨s, hs⟩
    obtain ⟨p, rfl, hfinds⟩ := isSentence_iff.1 hs
    have hparse := Expression.parse_of_finds hfinds
    split at hparse
    · exact ⟨_, hparse⟩
    · exact absurd hparse (parse_ne_tooManyNodes_of_short h)

/-! ### Sentences -/

/-- What may come on top of two nodes for each token of a phrase. A factor stays below that. -/
def Category.extra : Category → Nat
  | .expression => 4
  | .moreChains | .chain | .moreFactors => 2
  | .factor => 0

theorem Phrase.size_lt (p : Phrase k) : p.size < 2 * p.tokens.length + k.extra := by
  induction p <;>
    simp only [size, tokens, Category.extra, List.length_append, List.length_cons,
      List.length_nil] at * <;>
    omega

/-- A sentence of so many octets needs no more than two nodes for each and three, and that is what
its parse takes. A text of no more than 42 octets, whether it is a sentence or not, is never refused
for want of nodes or levels, but only for a character, a number or the syntax. -/
theorem Expression.limits_spare_short_texts :
    (∀ text s, IsSentence text s → s.need ≤ 2 * text.utf8ByteSize + 3 ∧
      ((∃ e, parse text = .ok e ∧ e.nodes.size = s.need) ∨
        parse text = .error .tooManyNodes ∧ nodeLimit < s.need)) ∧
      ∀ text : String, text.utf8ByteSize ≤ 42 →
        parse text ≠ .error .tooManyNodes ∧
        ((∃ e, parse text = .ok e) ↔ ∃ s, IsSentence text s) ∧
        ∀ fault, parse text = .error fault →
          (∃ c position, fault = .stray c position) ∨
          (∃ symbol position, fault = .unexpected symbol position) ∨
          (∃ position, fault = .unclosed position) ∨
          (∃ value truncated, fault = .numberTooLarge value truncated) ∨
          ∃ value, fault = .noSuchSignal value := by
  constructor
  · intro text s hs
    obtain ⟨p, rfl, hfinds⟩ := isSentence_iff.1 hs
    have htokens : p.tokens.length ≤ text.utf8ByteSize := by
      rw [← hfinds.1, List.length_map]
      exact length_lexemes_le text
    have hsize : p.size < 2 * p.tokens.length + 4 := p.size_lt
    refine ⟨show p.size ≤ _ by omega, ?_⟩
    rw [parse_of_finds hfinds]
    split
    · exact .inl ⟨_, rfl, size_ofPhrase p⟩
    · rename_i hlarge
      exact .inr ⟨rfl, Nat.not_le.1 hlarge⟩
  · intro text hlength
    have hshort : 3 * text.utf8ByteSize + 2 ≤ nodeLimit := by
      simp only [nodeLimit]
      omega
    have hspared := parse_ne_tooManyNodes_of_short hshort
    refine ⟨hspared, exists_parse_iff_of_short hshort, fun fault hfault => ?_⟩
    cases fault with
    | stray c position => exact .inl ⟨c, position, rfl⟩
    | unexpected symbol position => exact .inr (.inl ⟨symbol, position, rfl⟩)
    | unclosed position => exact .inr (.inr (.inl ⟨position, rfl⟩))
    | numberTooLarge value truncated =>
        exact .inr (.inr (.inr (.inl ⟨value, truncated, rfl⟩)))
    | noSuchSignal value => exact .inr (.inr (.inr (.inr ⟨value, rfl⟩)))
    | tooManyNodes => exact absurd hfault hspared

/-- A sentence that needs as many nodes as its octets allow, and a text that is as long as may be
and opens all the levels that there are. One group more is one too many. -/
theorem Expression.limits_spare_short_texts_at_bounds :
    (∃ s, IsSentence "1&2" s ∧ s.need = 9 ∧ s.need ≤ 2 * "1&2".utf8ByteSize + 3) ∧
      (String.ofList (List.replicate 42 '(')).utf8ByteSize ≤ 42 ∧
      parse (String.ofList (List.replicate 42 '(')) ≠ .error .tooManyNodes ∧
      parse (String.ofList (List.replicate 43 '(')) = .error .tooManyNodes := by
  let p : Phrase .expression := .expression (.chain (.signal 1) .endOfChain)
    (.and (.chain (.signal 2) .endOfChain) .endOfExpression)
  have hfinds : (Cursor.start "1&2".toList).scan.Finds p.tokens := ⟨by cbv, 3, by cbv⟩
  have hsentence : IsSentence "1&2" p.sentence := isSentence_iff.2 ⟨p, rfl, hfinds⟩
  refine ⟨⟨_, hsentence, rfl, (limits_spare_short_texts.1 _ _ hsentence).1⟩, by decide, ?_, by cbv⟩
  exact (limits_spare_short_texts.2 _ (by decide)).1

end TimeSwitch.Formula
