import TimeSwitch.Proofs.Formula.Cuts
import TimeSwitch.Proofs.Text.Ascii

/-!
Where a text that is not a formula goes wrong. The reader finds out about a wrong token late: what
may follow a part of a phrase is taken to end it, and the fault is raised by a phrase further out.
Yet what has been passed by then is all right, and what stands next is not.

`Comes` says this of a reading: it gives what is good, or runs out of nodes, or is stuck at such a
place. It has a rule for each thing that a reading does, and `comes_read` puts them together. In the
text the place is a cut, and no formula goes on from there, so a fault points at the first place
where the text goes wrong.
-/

namespace TimeSwitch.Formula

open Sequence Stage

/-- The fault of standing at a scan from where nothing goes on: at a token that the stage refuses,
at the end of the text before the expression is whole, or where the scan itself is at fault. -/
inductive Stuck (stage : Stage) : Scan → Fault → Prop
  | refused {l : Lexeme} {rest : List Lexeme} {ending : Except Fault Nat} {fault : Fault}
      (hrefused : stage.after l.token = none)
      (hfault : fault = .unexpected (some l.symbol) l.position ∨ fault = .unclosed l.position) :
      Stuck stage ⟨l :: rest, ending⟩ fault
  | unfinished {position : Nat} {fault : Fault} (hopen : stage ≠ operator 0)
      (hfault : fault = .unexpected none position ∨ fault = .unclosed position) :
      Stuck stage ⟨[], .ok position⟩ fault
  | scan {fault : Fault} : Stuck stage ⟨[], .error fault⟩ fault

section

variable {stage next : Stage} {scan here : Scan} {tokens : List Token}

/-- Both faults of standing at a scan, where nothing goes on from it. -/
theorem stuck_here {fault : Fault} (hrefused : ∀ l ∈ scan.lexemes.head?, stage.after l.token = none)
    (hopen : scan.lexemes = [] → stage ≠ operator 0)
    (hfault : fault = scan.unexpectedHere ∨ fault = scan.unclosedHere) :
    Stuck stage scan fault := by
  obtain ⟨_ | ⟨l, rest⟩, ending⟩ := scan
  · cases ending with
    | ok position => exact .unfinished (hopen rfl) hfault
    | error scanned =>
        obtain rfl : fault = scanned := hfault.elim id id
        exact .scan
  · exact .refused (hrefused l rfl) hfault

/-! ### What a reading comes to -/

/-- From a stage on, a reading gives what is good, runs out of nodes, or is stuck behind tokens that
may stand there. -/
inductive Comes {α : Type} (stage : Stage) (scan : Scan) (Good : α → Prop) : Except Fault α → Prop
  | done {a : α} (hgood : Good a) : Comes stage scan Good (.ok a)
  | exhausted : Comes stage scan Good (.error .tooManyNodes)
  | stuck {tokens : List Token} {reached : Stage} {here : Scan} {fault : Fault}
      (hpassed : Passed scan tokens here) (hreached : stage.afterAll tokens = some reached)
      (hstuck : Stuck reached here fault) : Comes stage scan Good (.error fault)

variable {α β : Type} {Good : α → Prop} {Better : β → Prop} {x : Except Fault α}

namespace Comes

/-- Tokens passed before a reading begins. -/
theorem behind (hpassed : Passed scan tokens here) (hnext : stage.afterAll tokens = some next)
    (h : Comes next here Good x) : Comes stage scan Good x := by
  cases h with
  | done hgood => exact .done hgood
  | exhausted => exact .exhausted
  | stuck hpassed' hreached hstuck =>
      exact .stuck (hpassed.trans hpassed') (by simpa [hnext] using hreached) hstuck

theorem bind {f : α → Except Fault β} (h : Comes stage scan Good x)
    (hf : ∀ a, Good a → Comes stage scan Better (f a)) : Comes stage scan Better (x >>= f) := by
  cases h with
  | done hgood => exact hf _ hgood
  | exhausted => exact .exhausted
  | stuck hpassed hreached hstuck => exact .stuck hpassed hreached hstuck

theorem takeNode {used : Nat} {f : Nat → Except Fault β}
    (hf : ∀ used, Comes stage scan Better (f used)) :
    Comes stage scan Better (Formula.takeNode used >>= f) := by
  unfold Formula.takeNode
  split
  · exact hf _
  · exact .exhausted

theorem ready {f : Scan → Except Fault β} (hf : Comes stage scan Better (f scan)) :
    Comes stage scan Better (scan.ready >>= f) := by
  cases hready : scan.ready with
  | ok started =>
      obtain rfl := Phrase.eq_of_ready hready
      exact hf
  | error fault =>
      obtain ⟨_ | ⟨l, rest⟩, _ | fault⟩ := scan <;> cases hready
      exact .stuck (.refl _) rfl .scan

theorem moveTo {l : Lexeme} {rest : List Lexeme} {f : Scan → Except Fault β}
    (hlexemes : scan.lexemes = l :: rest) (hnext : stage.after l.token = some next)
    (hf : Comes next ⟨rest, scan.ending⟩ Better (f ⟨rest, scan.ending⟩)) :
    Comes stage scan Better (scan.moveTo rest >>= f) :=
  (ready hf).behind (.token hlexemes) (by simpa using hnext)

end Comes

end

namespace Phrase

/-- A phrase that stood in front, with what may follow it behind. -/
structure ReadFrom (k : Category) (scan : Scan) (r : Read k) : Prop where
  passed : Passed scan r.phrase.tokens r.scan
  follows : MayFollow k r.scan.lexemes

variable {k k₁ k₂ : Category} {scan : Scan} {n : Nat}

/-- Reading on behind a phrase. -/
theorem comes_behind {α : Type} {Good : α → Prop} {x : Except Fault (Read k)}
    {f : Read k → Except Fault α} (hx : Comes (entry k n) scan (ReadFrom k scan) x)
    (hf : ∀ r, ReadFrom k scan r → Comes (operator n) r.scan Good (f r)) :
    Comes (entry k n) scan Good (x >>= f) :=
  hx.bind fun r hr => (hf r hr).behind hr.passed (afterAll_tokens r.phrase n)

/-- Two parts read one after the other, as `outcome_pair` has them. -/
theorem comes_pair {build : Phrase k₁ → Phrase k₂ → Phrase k} {Good : Read k → Prop}
    {readFirst : Except Fault (Read k₁)} {readSecond : Read k₁ → Except Fault (Read k₂)}
    (hfirst : Comes (entry k₁ n) scan (ReadFrom k₁ scan) readFirst)
    (hsecond : ∀ first : Read k₁, MayFollow k₁ first.scan.lexemes →
      Comes (operator n) first.scan (ReadFrom k₂ first.scan) (readSecond first))
    (hgood : ∀ p q after used, Passed scan (p.tokens ++ q.tokens) after →
      MayFollow k₂ after.lexemes → Good ⟨build p q, after, used⟩) :
    Comes (entry k₁ n) scan Good (do
      let first ← readFirst
      let second ← readSecond first
      let used ← takeNode second.used
      return ⟨build first.phrase second.phrase, second.scan, used⟩) :=
  comes_behind hfirst fun first hr => (hsecond first hr.follows).bind fun _ hr' =>
    .takeNode fun used => .done (hgood _ _ _ used (hr.passed.trans hr'.passed) hr'.follows)

section

variable {lexemes : List Lexeme}

theorem token_ne_of_head {token : Token}
    (hnone : ∀ symbol position rest, lexemes = ⟨token, symbol, position⟩ :: rest → False) :
    ∀ l ∈ lexemes.head?, l.token ≠ token := by
  rintro ⟨_, symbol, position⟩ hl rfl
  obtain ⟨rest, hlexemes⟩ := List.head?_eq_some_iff.1 hl
  exact hnone symbol position rest hlexemes

/-- What ends an expression inside a group and does not close the group may not stand there. -/
theorem refused_of_not_closed (hfollows : MayFollow .expression lexemes)
    (hnone : ∀ symbol position rest, lexemes = ⟨.closeGroup, symbol, position⟩ :: rest → False) :
    ∀ l ∈ lexemes.head?, (operator (n + 1)).after l.token = none := by
  intro l hl
  obtain ⟨hand, hor⟩ := hfollows l hl
  exact after_operator_eq_none hand hor fun hclose => absurd hclose (token_ne_of_head hnone l hl)

/-- What begins no factor may not stand where an operand has to come. -/
theorem refused_of_no_factor
    (hgroup : ∀ symbol position rest, lexemes = ⟨.openGroup, symbol, position⟩ :: rest → False)
    (hnot : ∀ symbol position rest, lexemes = ⟨.not, symbol, position⟩ :: rest → False)
    (hsignal : ∀ s symbol position rest, lexemes = ⟨.signal s, symbol, position⟩ :: rest → False)
    (htruth : ∀ b symbol position rest, lexemes = ⟨.truth b, symbol, position⟩ :: rest → False) :
    ∀ l ∈ lexemes.head?, (operand n).after l.token = none := by
  intro l hl
  cases htoken : l.token with
  | and => rfl
  | or => rfl
  | closeGroup => rfl
  | openGroup => exact absurd htoken (token_ne_of_head hgroup l hl)
  | not => exact absurd htoken (token_ne_of_head hnot l hl)
  | signal s => exact absurd htoken (token_ne_of_head (hsignal s) l hl)
  | truth b => exact absurd htoken (token_ne_of_head (htruth b) l hl)

end

/-- Whatever is read stood in front, and a fault that is not for want of nodes is met behind tokens
that may stand there, at a place from where nothing goes on. -/
theorem comes_read {levels used : Nat}
    (hfollows : k = .moreChains → MayFollow .chain scan.lexemes) :
    Comes (entry k n) scan (ReadFrom k scan) (read k levels scan used) := by
  -- as in `took_of_read`, the levels carry the induction through all categories at once
  induction levels using Nat.strongRecOn generalizing k n used scan with
  | ind levels ih =>
      cases k with
      | expression =>
          cases levels with
          | zero => exact .exhausted
          | succ levels =>
              exact comes_pair (ih levels (by omega) (k := .chain) (by simp))
                (fun _ hr => ih levels (by omega) (k := .moreChains) fun _ => hr)
                fun _ _ _ _ hpassed hafter => ⟨hpassed, hafter⟩
      | moreChains =>
          rw [read, readMoreChains]
          split
          · rename_i hlexemes
            cases levels with
            | zero => exact .exhausted
            | succ levels =>
                refine .moveTo hlexemes rfl ?_
                exact comes_pair (ih levels (by omega) (k := .chain) (by simp))
                  (fun _ hr => ih levels (by omega) (k := .moreChains) fun _ => hr)
                  fun _ _ _ _ hpassed hafter => ⟨(Passed.token hlexemes).trans hpassed, hafter⟩
          · rename_i hnone
            refine .takeNode fun _ => .done ⟨.refl scan, fun l hl => ?_⟩
            exact ⟨token_ne_of_head hnone l hl, hfollows rfl l hl⟩
      | chain =>
          cases levels with
          | zero => exact .exhausted
          | succ levels =>
              exact comes_pair (ih levels (by omega) (k := .factor) (by simp))
                (fun _ _ => ih levels (by omega) (k := .moreFactors) (by simp))
                fun _ _ _ _ hpassed hafter => ⟨hpassed, hafter⟩
      | moreFactors =>
          rw [read, readMoreFactors]
          split
          · rename_i hlexemes
            cases levels with
            | zero => exact .exhausted
            | succ levels =>
                refine .moveTo hlexemes rfl ?_
                exact comes_pair (ih levels (by omega) (k := .factor) (by simp))
                  (fun _ _ => ih levels (by omega) (k := .moreFactors) (by simp))
                  fun _ _ _ _ hpassed hafter => ⟨(Passed.token hlexemes).trans hpassed, hafter⟩
          · rename_i hnone
            exact .takeNode fun _ => .done ⟨.refl scan, token_ne_of_head hnone⟩
      | factor =>
          rw [read, readFactor]
          split
          · rename_i hlexemes
            cases levels with
            | zero => exact .exhausted
            | succ levels =>
                refine .moveTo hlexemes rfl ?_
                refine comes_behind (k := .expression) (ih levels (by omega) (by simp))
                  fun inner hinner => ?_
                split
                · rename_i hclose
                  refine .moveTo hclose rfl (.done ⟨?_, trivial⟩)
                  exact (Passed.token hlexemes).trans (hinner.passed.trans (.token hclose))
                · rename_i hnone
                  exact .stuck (.refl _) rfl (stuck_here
                    (refused_of_not_closed hinner.follows hnone) (by simp) (.inr rfl))
          · rename_i hlexemes
            cases levels with
            | zero => exact .exhausted
            | succ levels =>
                refine .moveTo hlexemes rfl ?_
                refine comes_behind (k := .factor) (ih levels (by omega) (by simp))
                  fun operand hoperand => .takeNode fun _ => .done ⟨?_, trivial⟩
                exact (Passed.token hlexemes).trans hoperand.passed
          · rename_i hlexemes
            exact .moveTo hlexemes rfl (.takeNode fun _ => .done ⟨.token hlexemes, trivial⟩)
          · rename_i hlexemes
            exact .moveTo hlexemes rfl (.takeNode fun _ => .done ⟨.token hlexemes, trivial⟩)
          · rename_i hgroup hnot hsignal htruth
            exact .stuck (.refl _) rfl (stuck_here
              (refused_of_no_factor hgroup hnot hsignal htruth) (by simp [entry]) (.inl rfl))

/-- What a whole text comes to. -/
theorem comes_parse (text : List Char) :
    Comes (operand 0) (Cursor.start text).scan (fun _ => True) (parse text) := by
  refine .ready ?_
  have hread := @comes_read .expression (Cursor.start text).scan 0 nodeLimit 0 nofun
  refine comes_behind (k := .expression) hread fun r hr => ?_
  split
  · exact .done trivial
  · rename_i l rest hlexemes
    refine .stuck (.refl _) rfl (stuck_here (fun l hl => ?_) (fun hnil => ?_) (.inl rfl))
    · obtain ⟨hand, hor⟩ := hr.follows l hl
      exact after_operator_eq_none hand hor fun _ => rfl
    · rw [hnil] at hlexemes
      cases hlexemes

end Phrase

/-! ### Where a fault points -/

/-- The characters of formulas: blanks, digits and the symbols. -/
def alphabet : List Char :=
  [' ', '\t', '\n', '\x0c', '\r', '0', '1', '2', '3', '4', '5', '6', '7', '8', '9',
    '&', '|', '!', '(', ')', 'T', 'F']

theorem not_mem_alphabet {c : Char} (hblank : isBlank c = false) (hdigit : c.isDigit = false)
    (hsymbol : Token.ofSymbol? c = none) : c ∉ alphabet := by
  have hkinds : alphabet.all fun c => isBlank c || c.isDigit || (Token.ofSymbol? c).isSome := by
    decide
  intro hc
  simpa [hblank, hdigit, hsymbol] using List.all_eq_true.1 hkinds c hc

/-- What a fault says about the character where it points, if there is one. -/
inductive Reports : Fault → Option Char → Prop
  | stray {c : Char} {position : Nat} (hstray : c ∉ alphabet) :
      Reports (.stray c position) (some c)
  | unexpected {symbol : Option Char} {position : Nat} :
      Reports (.unexpected symbol position) symbol
  | unclosed {position : Nat} {there : Option Char} : Reports (.unclosed position) there

theorem reports_of_fault {fault : Fault} {there : Option Char} {position p : Nat}
    (hfault : fault = .unexpected there position ∨ fault = .unclosed position)
    (hp : fault.position? = some p) : p = position ∧ Reports fault there := by
  rcases hfault with rfl | rfl <;> cases hp
  · exact ⟨rfl, .unexpected⟩
  · exact ⟨rfl, .unclosed⟩

/-- Of the texts that go on like a text behind a cut, as far as their first character tells, none
leads to the end of an expression. -/
theorem Stuck.leftmost {stage : Stage} {after : List Char} {position p : Nat} {fault : Fault}
    (h : Stuck stage (⟨after, position⟩ : Cursor).scan fault)
    (hplain : ∀ c ∈ after.head?, isBlank c = false) (hp : fault.position? = some p) :
    p = position ∧ Reports fault after.head? ∧
      ∀ more tokens, more.head? = after.head? → Outlines more tokens →
        stage.afterAll tokens ≠ some (operator 0) := by
  cases after with
  | nil =>
      rw [Cursor.scan_nil] at h
      cases h with
      | unfinished hopen hfault =>
          obtain ⟨rfl, hreports⟩ := reports_of_fault hfault hp
          refine ⟨rfl, hreports, fun more tokens hmore hout => ?_⟩
          obtain rfl := List.head?_eq_none_iff.1 hmore
          rw [hout.of_nil, afterAll_nil]
          exact fun heq => hopen (Option.some.inj heq)
  | cons c rest =>
      have hfound := found_scan (hplain c rfl) rest position
      generalize (⟨c :: rest, position⟩ : Cursor).scan = scan at h hfound
      cases h with
      | @refused l later ending _ hrefused hfault =>
          obtain ⟨rfl, rfl⟩ := hfound.lexeme_at
          obtain ⟨rfl, hreports⟩ := reports_of_fault hfault hp
          refine ⟨rfl, hreports, fun more tokens hmore hout => ?_⟩
          obtain ⟨more, rfl⟩ := List.head?_eq_some_iff.1 hmore
          obtain ⟨token, others, rfl, hsame⟩ := hfound.after_eq hout
          rw [afterAll_cons, hsame, hrefused]
          nofun
      | unfinished => cases hfound
      | scan =>
          cases hfound with
          | refused hfault => simp [hfault] at hp
          | stray hblank hdigit hsymbol =>
              cases hp
              refine ⟨rfl, .stray (not_mem_alphabet hblank hdigit hsymbol), ?_⟩
              intro more tokens hmore hout
              obtain ⟨more, rfl⟩ := List.head?_eq_some_iff.1 hmore
              exact absurd hout (not_outlines_of_stray hblank hdigit hsymbol)

/-! ### Whole texts -/

theorem spells_closeGroups (n : Nat) :
    Spells (List.replicate n ')') (List.replicate n .closeGroup) := by
  induction n with
  | zero => exact .done
  | succ n ih => exact .symbol rfl ih

theorem exists_closing (stage : Stage) :
    ∃ more, Spells more stage.closing ∧ ∀ c ∈ more.head?, c.isDigit = false := by
  cases stage with
  | operand n => exact ⟨'T' :: List.replicate n ')', .symbol rfl (spells_closeGroups n), by simp⟩
  | operator n =>
      refine ⟨List.replicate n ')', spells_closeGroups n, ?_⟩
      cases n <;> simp [List.replicate_succ]

theorem Spells.isAscii {text : List Char} {tokens : List Token} (h : Spells text tokens) :
    IsAscii text := by
  induction h with
  | done => exact isAscii_nil
  | @blank c _ _ hblank _ ih =>
      refine isAscii_cons.2 ⟨?_, ih⟩
      simp only [isBlank, Bool.or_eq_true, beq_iff_eq] at hblank
      rcases hblank with (((rfl | rfl) | rfl) | rfl) | rfl <;> decide
  | @symbol c _ _ _ hsymbol _ ih =>
      refine isAscii_cons.2 ⟨?_, ih⟩
      unfold Token.ofSymbol? at hsymbol
      split at hsymbol <;> first | decide | cases hsymbol
  | number _ hdigits _ _ _ ih => exact isAscii_append.2 ⟨isAscii_of_isDigit hdigits, ih⟩

variable {text before after : List Char} {tokens : List Token} {stage : Stage}

/-- The text before a cut goes on to a formula. -/
theorem Cut.viable (h : Cut text tokens before after)
    (hstage : (operand 0).afterAll tokens = some stage) :
    ∃ more s, IsSentence (String.ofList (before ++ more)) s := by
  obtain ⟨more, hmore, hplain⟩ := exists_closing stage
  have hwhole : (operand 0).afterAll (tokens ++ stage.closing) = some (operator 0) := by
    rw [afterAll_append, hstage, Option.bind_some, afterAll_closing]
  obtain ⟨p, hp⟩ := afterAll_eq_iff.1 hwhole
  refine ⟨more, p.sentence, ?_, derives_expression_iff.2 ⟨p, rfl⟩⟩
  have hspells := h.spells.append (.of_head hplain) hmore
  rw [← hp] at hspells
  rwa [String.toList_ofList]

/-- A text that goes on behind a cut, but from its stage does not lead to the end of an expression,
is none. -/
theorem Cut.not_inGrammar {more : List Char} (h : Cut text tokens before after)
    (hstage : (operand 0).afterAll tokens = some stage) (hhead : more.head? = after.head?)
    (hmore : ∀ rest, Outlines more rest → stage.afterAll rest ≠ some (operator 0)) :
    ¬InGrammar (String.ofList (before ++ more)) := by
  rintro ⟨s, hout, hderives⟩
  obtain ⟨p, rfl⟩ := derives_expression_iff.1 hderives
  rw [String.toList_ofList] at hout
  have hapart : Apart before more := fun d hd c hc => h.apart d hd c (hhead ▸ hc)
  obtain ⟨rest, hrest, hafter⟩ := hout.cut h.spells hapart
  have hwhole := afterAll_eq_iff.2 ⟨p, rfl⟩
  refine hmore rest hrest ?_
  rw [← hwhole]
  exact ((hafter (operand 0)).trans (by rw [hstage, Option.bind_some])).symm

namespace Expression

theorem parse_eq_error_iff {text : String} {fault : Fault} :
    parse text = .error fault ↔ Phrase.parse text.toList = .error fault := by
  rw [parse]
  cases Phrase.parse text.toList <;> simp [Functor.map, Except.map]

/-- A fault points at the leftmost place where a text goes wrong. The text before that place goes
on to a formula. If nothing stands there, the text itself is no formula; otherwise no formula begins
with that text and the character that stands there. -/
theorem parse_fault_leftmost {text : String} {fault : Fault} {p : Nat}
    (h : parse text = .error fault) (hp : fault.position? = some p) :
    ∃ before after : String, text = before ++ after ∧ before.utf8ByteSize = p ∧
      (∃ more s, IsSentence (before ++ more) s) ∧ Reports fault after.toList.head? ∧
      (after = "" ∧ ¬InGrammar text ∨
        ∃ c, after.toList.head? = some c ∧ ∀ more, ¬InGrammar (before.push c ++ more)) := by
  have hcomes := Phrase.comes_parse text.toList
  rw [parse_eq_error_iff.1 h] at hcomes
  cases hcomes with
  | exhausted => cases hp
  | stuck hpassed hreached hstuck =>
      obtain ⟨before, after, hcut, rfl⟩ := exists_cut hpassed
      obtain ⟨rfl, hreports, hnone⟩ := hstuck.leftmost hcut.plain hp
      have htext : text = String.ofList before ++ String.ofList after := by
        rw [← String.ofList_append, ← hcut.text, String.ofList_toList]
      refine ⟨String.ofList before, String.ofList after, htext, ?_, ?_, ?_, ?_⟩
      · rw [Octets.utf8ByteSize_ofList, Octets.length_ofText hcut.spells.isAscii]
        exact (Nat.zero_add _).symm
      · obtain ⟨more, s, hsentence⟩ := hcut.viable hreached
        exact ⟨String.ofList more, s, by rwa [← String.ofList_append]⟩
      · rwa [String.toList_ofList]
      · cases after with
        | nil =>
            refine .inl ⟨rfl, ?_⟩
            rw [htext, ← String.ofList_append]
            exact hcut.not_inGrammar hreached rfl fun rest => hnone [] rest rfl
        | cons c after =>
            refine .inr ⟨c, by rw [String.toList_ofList]; rfl, fun more => ?_⟩
            have happend : (String.ofList before).push c ++ more =
                String.ofList (before ++ c :: more.toList) := by
              simp [← String.toList_inj]
            rw [happend]
            exact hcut.not_inGrammar hreached rfl fun rest => hnone _ rest rfl

/-- A group that is not closed, at a token that cannot go on with what is in it. -/
theorem parse_fault_leftmost_unclosed :
    parse "(1 2" = .error (.unclosed 3) ∧ Fault.position? (.unclosed 3) = some 3 ∧
      ∃ before after : String, "(1 2" = before ++ after ∧ before.utf8ByteSize = 3 ∧
        (∃ more s, IsSentence (before ++ more) s) ∧ Reports (.unclosed 3) after.toList.head? ∧
        (after = "" ∧ ¬InGrammar "(1 2" ∨
          ∃ c, after.toList.head? = some c ∧ ∀ more, ¬InGrammar (before.push c ++ more)) := by
  have h : parse "(1 2" = .error (.unclosed 3) := by cbv
  exact ⟨h, rfl, parse_fault_leftmost h rfl⟩

end Expression

end TimeSwitch.Formula
