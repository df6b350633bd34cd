import TimeSwitch.Formula.Parse
import TimeSwitch.Proofs.Formula.Spelling
import TimeSwitch.Proofs.Sequence

/-!
What reading a phrase comes to. Where the tokens of a phrase stand, reading gives that phrase if
the levels and the nodes that are left suffice for it, and fails for want of nodes if they do not
(`read_of_tokens`). Conversely, whatever is read was standing there (`took_of_read`). A phrase
is less deep than it is large, so nodes are what runs out.
-/

namespace TimeSwitch.Formula.Phrase

open Sequence

/-- Reads a phrase of the given category. -/
def read : (k : Category) → (levels : Nat) → Scan → Nat → Except Fault (Read k)
  | .expression => readExpression
  | .moreChains => readMoreChains
  | .chain => readChain
  | .moreFactors => readMoreFactors
  | .factor => readFactor

/-- How many phrases are open inside one another while the phrase is read. -/
def depth : Phrase k → Nat
  | expression first others => max first.depth others.depth + 1
  | endOfExpression => 0
  | and next others => max next.depth others.depth + 1
  | chain first others => max first.depth others.depth + 1
  | endOfChain => 0
  | or next others => max next.depth others.depth + 1
  | not operand => operand.depth + 1
  | group inner => inner.depth + 1
  | signal _ => 0
  | truth _ => 0

/-- A group opens a level without taking a node, but the expression in it takes two nodes more
than it opens levels. -/
theorem depth_lt_size (p : Phrase k) :
    p.depth < p.size ∧ (k = .expression → p.depth + 1 < p.size) := by
  induction p <;> simp only [depth, size] at * <;> grind

/-- The levels and the nodes that are left suffice for a phrase. -/
def Fits (p : Phrase k) (levels used : Nat) : Prop :=
  p.depth ≤ levels ∧ used + p.size ≤ nodeLimit

instance (p : Phrase k) (levels used : Nat) : Decidable (p.Fits levels used) :=
  inferInstanceAs (Decidable (_ ∧ _))

/-- What reading a phrase has to give, where its tokens stand in front of `after`. -/
def outcome (p : Phrase k) (levels used : Nat) (after : Scan) : Except Fault (Read k) :=
  if p.Fits levels used then .ok ⟨p, after, used + p.size⟩ else .error .tooManyNodes

theorem outcome_of_fits {p : Phrase k} {levels used : Nat} {after : Scan}
    (h : p.Fits levels used) : p.outcome levels used after = .ok ⟨p, after, used + p.size⟩ :=
  if_pos h

theorem outcome_of_not_fits {p : Phrase k} {levels used : Nat} {after : Scan}
    (h : ¬ p.Fits levels used) : p.outcome levels used after = .error .tooManyNodes :=
  if_neg h

theorem takeNode_of_lt {used : Nat} (h : used < nodeLimit) : takeNode used = .ok (used + 1) :=
  if_pos h

theorem takeNode_of_le {used : Nat} (h : nodeLimit ≤ used) :
    takeNode used = .error .tooManyNodes :=
  if_neg (Nat.not_lt.2 h)

/-! ### Outcomes put together -/

theorem outcome_zero {p : Phrase k} (hdepth : 0 < p.depth) (used : Nat) (after : Scan) :
    .error .tooManyNodes = p.outcome 0 used after :=
  (outcome_of_not_fits fun h => Nat.not_lt.2 h.1 hdepth).symm

theorem outcome_leaf {p : Phrase k} (hdepth : p.depth = 0) (hsize : p.size = 1)
    (levels used : Nat) (after : Scan) :
    (do let used ← takeNode used; return ⟨p, after, used⟩) = p.outcome levels used after := by
  by_cases hnode : used < nodeLimit
  · rw [takeNode_of_lt hnode, outcome_of_fits ⟨by omega, by omega⟩, hsize]
    rfl
  · rw [takeNode_of_le (by omega), outcome_of_not_fits fun h => by have := h.2; omega]
    rfl

/-- A phrase of two parts, one read after the other, and a node for itself. -/
theorem outcome_pair {k₁ k₂ k : Category} {p : Phrase k₁} {q : Phrase k₂}
    {build : Phrase k₁ → Phrase k₂ → Phrase k}
    (hdepth : (build p q).depth = max p.depth q.depth + 1)
    (hsize : (build p q).size = p.size + q.size + 1)
    {readFirst : Except Fault (Read k₁)} {readSecond : Read k₁ → Except Fault (Read k₂)}
    {levels used : Nat} {between after : Scan} (hfirst : readFirst = p.outcome levels used between)
    (hsecond : readSecond ⟨p, between, used + p.size⟩ =
      q.outcome levels (used + p.size) after) :
    (do
      let first ← readFirst
      let second ← readSecond first
      let used ← takeNode second.used
      return ⟨build first.phrase second.phrase, second.scan, used⟩) =
        (build p q).outcome (levels + 1) used after := by
  have hfits : (build p q).Fits (levels + 1) used ↔ p.Fits levels used ∧
      q.Fits levels (used + p.size) ∧ used + p.size + q.size < nodeLimit := by
    unfold Fits
    omega
  rw [hfirst]
  by_cases hp : p.Fits levels used
  · rw [outcome_of_fits hp, ok_bind, hsecond]
    by_cases hq : q.Fits levels (used + p.size)
    · rw [outcome_of_fits hq, ok_bind]
      by_cases hnode : used + p.size + q.size < nodeLimit
      · rw [takeNode_of_lt hnode, outcome_of_fits (hfits.2 ⟨hp, hq, hnode⟩), hsize,
          Nat.add_assoc p.size, ← Nat.add_assoc]
        rfl
      · rw [takeNode_of_le (Nat.not_lt.1 hnode), outcome_of_not_fits fun h => hnode (hfits.1 h).2.2]
        rfl
    · rw [outcome_of_not_fits hq, outcome_of_not_fits fun h => hq (hfits.1 h).2.1]
      rfl
  · rw [outcome_of_not_fits hp, outcome_of_not_fits fun h => hp (hfits.1 h).1]
    rfl

theorem outcome_not {operand : Phrase .factor} {readOperand : Except Fault (Read .factor)}
    {levels used : Nat} {after : Scan} (h : readOperand = operand.outcome levels used after) :
    (do
      let operand ← readOperand
      let used ← takeNode operand.used
      return ⟨.not operand.phrase, operand.scan, used⟩) =
        (not operand).outcome (levels + 1) used after := by
  have hfits : (not operand).Fits (levels + 1) used ↔
      operand.Fits levels used ∧ used + operand.size < nodeLimit := by
    simp only [Fits, depth, size]
    omega
  rw [h]
  by_cases hp : operand.Fits levels used
  · rw [outcome_of_fits hp, ok_bind]
    by_cases hnode : used + operand.size < nodeLimit
    · rw [takeNode_of_lt hnode, outcome_of_fits (hfits.2 ⟨hp, hnode⟩)]
      rfl
    · rw [takeNode_of_le (Nat.not_lt.1 hnode), outcome_of_not_fits fun h => hnode (hfits.1 h).2]
      rfl
  · rw [outcome_of_not_fits hp, outcome_of_not_fits fun h => hp (hfits.1 h).1]
    rfl

theorem moveTo_ok (lexemes rest : List Lexeme) (position : Nat) :
    (⟨lexemes, .ok position⟩ : Scan).moveTo rest = .ok ⟨rest, .ok position⟩ := by
  cases rest <;> rfl

/-- A group takes no node, only a level. -/
theorem outcome_group {inner : Phrase .expression} {readInner : Except Fault (Read .expression)}
    {levels used : Nat} {close : Lexeme} {rest : List Lexeme} {position : Nat}
    (hclose : close.token = .closeGroup)
    (h : readInner = inner.outcome levels used ⟨close :: rest, .ok position⟩) :
    (do
      let inner ← readInner
      match inner.scan.lexemes with
      | ⟨.closeGroup, _, _⟩ :: rest =>
        let scan ← inner.scan.moveTo rest
        return ⟨.group inner.phrase, scan, inner.used⟩
      | _ => .error inner.scan.unclosedHere) =
        (group inner).outcome (levels + 1) used ⟨rest, .ok position⟩ := by
  obtain ⟨token, symbol, place⟩ := close
  subst hclose
  have hfits : (group inner).Fits (levels + 1) used ↔ inner.Fits levels used := by
    simp only [Fits, depth, size]
    omega
  rw [h]
  by_cases hp : inner.Fits levels used
  · rw [outcome_of_fits hp, outcome_of_fits (hfits.2 hp)]
    simp only [ok_bind, moveTo_ok]
    rfl
  · rw [outcome_of_not_fits hp, outcome_of_not_fits fun h => hp (hfits.1 h)]
    rfl

/-- What may stand behind a phrase without going on with it. -/
def MayFollow : Category → List Lexeme → Prop
  | .expression, rest | .moreChains, rest => ∀ l ∈ rest.head?, l.token ≠ .and ∧ l.token ≠ .or
  | .chain, rest | .moreFactors, rest => ∀ l ∈ rest.head?, l.token ≠ .or
  | .factor, _ => True

/-- More chains begin with `&`, so they may follow a chain. -/
theorem mayFollow_chain (others : Phrase .moreChains) {lexemes rest : List Lexeme}
    (h : lexemes.map Lexeme.token = others.tokens) (hrest : MayFollow .moreChains rest) :
    MayFollow .chain (lexemes ++ rest) := by
  cases others with
  | endOfExpression =>
      obtain rfl := List.map_eq_nil_iff.1 h
      exact fun l hl => (hrest l hl).2
  | and next others =>
      obtain ⟨l, lexemes, rfl, hl, -⟩ := List.map_eq_cons_iff.1 h
      simp [MayFollow, hl]

/-- Where the tokens of a phrase stand, reading comes to its outcome. -/
theorem read_of_tokens (p : Phrase k) {lexemes rest : List Lexeme} (levels used position : Nat)
    (h : lexemes.map Lexeme.token = p.tokens) (hrest : MayFollow k rest) :
    read k levels ⟨lexemes ++ rest, .ok position⟩ used =
      p.outcome levels used ⟨rest, .ok position⟩ := by
  induction p generalizing lexemes rest levels used with
  | expression first others ihFirst ihOthers =>
      obtain ⟨front, back, rfl, hfront, hback⟩ := List.map_eq_append_iff.1 h
      cases levels with
      | zero => exact outcome_zero (by simp [depth]) used _
      | succ levels =>
          rw [List.append_assoc]
          exact outcome_pair rfl rfl
            (ihFirst levels used hfront (mayFollow_chain others hback hrest))
            (ihOthers levels (used + first.size) hback hrest)
  | endOfExpression =>
      obtain rfl := List.map_eq_nil_iff.1 h
      rw [List.nil_append, read, readMoreChains]
      -- Only an `&` could make reading go on, and none may follow.
      split
      · rename_i symbol place after heq
        obtain rfl : rest = _ := heq
        exact absurd rfl (hrest ⟨.and, symbol, place⟩ rfl).1
      · exact outcome_leaf rfl rfl levels used _
  | and next others ihNext ihOthers =>
      obtain ⟨⟨token, symbol, place⟩, lexemes, rfl, rfl, htokens⟩ := List.map_eq_cons_iff.1 h
      obtain ⟨front, back, rfl, hfront, hback⟩ := List.map_eq_append_iff.1 htokens
      cases levels with
      | zero => exact outcome_zero (by simp [depth]) used _
      | succ levels =>
          rw [List.cons_append, List.append_assoc, read, readMoreChains]
          simp only [moveTo_ok, ok_bind]
          exact outcome_pair rfl rfl
            (ihNext levels used hfront (mayFollow_chain others hback hrest))
            (ihOthers levels (used + next.size) hback hrest)
  | chain first others ihFirst ihOthers =>
      obtain ⟨front, back, rfl, hfront, hback⟩ := List.map_eq_append_iff.1 h
      cases levels with
      | zero => exact outcome_zero (by simp [depth]) used _
      | succ levels =>
          rw [List.append_assoc]
          exact outcome_pair rfl rfl (ihFirst levels used hfront trivial)
            (ihOthers levels (used + first.size) hback hrest)
  | endOfChain =>
      obtain rfl := List.map_eq_nil_iff.1 h
      rw [List.nil_append, read, readMoreFactors]
      -- Here it is an `|` that may not follow.
      split
      · rename_i symbol place after heq
        obtain rfl : rest = _ := heq
        exact absurd rfl (hrest ⟨.or, symbol, place⟩ rfl)
      · exact outcome_leaf rfl rfl levels used _
  | or next others ihNext ihOthers =>
      obtain ⟨⟨token, symbol, place⟩, lexemes, rfl, rfl, htokens⟩ := List.map_eq_cons_iff.1 h
      obtain ⟨front, back, rfl, hfront, hback⟩ := List.map_eq_append_iff.1 htokens
      cases levels with
      | zero => exact outcome_zero (by simp [depth]) used _
      | succ levels =>
          rw [List.cons_append, List.append_assoc, read, readMoreFactors]
          simp only [moveTo_ok, ok_bind]
          exact outcome_pair rfl rfl (ihNext levels used hfront trivial)
            (ihOthers levels (used + next.size) hback hrest)
  | not operand ih =>
      obtain ⟨⟨token, symbol, place⟩, lexemes, rfl, rfl, htokens⟩ := List.map_eq_cons_iff.1 h
      cases levels with
      | zero => exact outcome_zero (by simp [depth]) used _
      | succ levels =>
          rw [List.cons_append, read, readFactor]
          simp only [moveTo_ok, ok_bind]
          exact outcome_not (ih levels used htokens trivial)
  | group inner ih =>
      obtain ⟨⟨token, symbol, place⟩, lexemes, rfl, rfl, htokens⟩ := List.map_eq_cons_iff.1 h
      obtain ⟨front, back, rfl, hfront, hback⟩ := List.map_eq_append_iff.1 htokens
      obtain ⟨close, nothing, rfl, hclose, hnothing⟩ := List.map_eq_cons_iff.1 hback
      obtain rfl := List.map_eq_nil_iff.1 hnothing
      cases levels with
      | zero => exact outcome_zero (by simp [depth]) used _
      | succ levels =>
          rw [List.cons_append, List.append_assoc, read, readFactor]
          simp only [moveTo_ok, ok_bind]
          exact outcome_group hclose (ih levels used hfront (by simp [MayFollow, hclose]))
  | signal s =>
      obtain ⟨⟨token, symbol, place⟩, nothing, rfl, rfl, hnothing⟩ := List.map_eq_cons_iff.1 h
      obtain rfl := List.map_eq_nil_iff.1 hnothing
      rw [read, readFactor]
      simp only [List.singleton_append, moveTo_ok, ok_bind]
      exact outcome_leaf rfl rfl levels used _
  | truth b =>
      obtain ⟨⟨token, symbol, place⟩, nothing, rfl, rfl, hnothing⟩ := List.map_eq_cons_iff.1 h
      obtain rfl := List.map_eq_nil_iff.1 hnothing
      rw [read, readFactor]
      simp only [List.singleton_append, moveTo_ok, ok_bind]
      exact outcome_leaf rfl rfl levels used _

/-! ### What is read was there -/

/-- From one scan to a later one, tokens have been taken from the front. A scan that has not come
to a fault does not come to one that way. -/
structure Took (scan : Scan) (tokens : List Token) (after : Scan) : Prop where
  tokens : scan.lexemes.map Lexeme.token = tokens ++ after.lexemes.map Lexeme.token
  ending : after.ending = scan.ending
  ready : scan.ready = .ok scan → after.ready = .ok after

theorem eq_of_ready {scan after : Scan} (h : scan.ready = .ok after) : after = scan := by
  unfold Scan.ready at h
  split at h
  · cases h
  · exact (Except.ok.inj h).symm

namespace Took

variable {a b c : Scan} {s t : List Token}

theorem refl (a : Scan) : Took a [] a := ⟨rfl, rfl, id⟩

theorem trans (h : Took a s b) (h' : Took b t c) : Took a (s ++ t) c where
  tokens := by rw [h.tokens, h'.tokens, List.append_assoc]
  ending := h'.ending.trans h.ending
  ready := h'.ready ∘ h.ready

theorem token {l : Lexeme} {rest : List Lexeme} (hlexemes : a.lexemes = l :: rest)
    (h : a.moveTo rest = .ok b) : Took a [l.token] b := by
  obtain rfl := eq_of_ready h
  exact ⟨by simp [hlexemes], rfl, fun _ => h⟩

end Took

/-- Two parts read one after the other, as `outcome_pair` has them. -/
theorem took_pair {k₁ k₂ k : Category} {build : Phrase k₁ → Phrase k₂ → Phrase k}
    {readFirst : Except Fault (Read k₁)} {readSecond : Read k₁ → Except Fault (Read k₂)}
    {scan : Scan} {r : Read k}
    (h : (do
      let first ← readFirst
      let second ← readSecond first
      let used ← takeNode second.used
      return ⟨build first.phrase second.phrase, second.scan, used⟩ : Except Fault (Read k)) = .ok r)
    (hfirst : ∀ first, readFirst = .ok first → Took scan first.phrase.tokens first.scan)
    (hsecond : ∀ first second, readSecond first = .ok second →
      Took first.scan second.phrase.tokens second.scan) :
    ∃ p q, r.phrase = build p q ∧ Took scan (p.tokens ++ q.tokens) r.scan := by
  simp only [bind_eq_ok] at h
  obtain ⟨first, hfirst', second, hsecond', used, -, h⟩ := h
  cases h
  exact ⟨_, _, rfl, (hfirst first hfirst').trans (hsecond first second hsecond')⟩

theorem leaf_of_ok {k : Category} {p : Phrase k} {scan : Scan} {used : Nat} {r : Read k}
    (h : (do let used ← takeNode used; return ⟨p, scan, used⟩ : Except Fault (Read k)) = .ok r) :
    r.phrase = p ∧ r.scan = scan := by
  obtain ⟨used, -, h⟩ := bind_eq_ok.1 h
  cases h
  exact ⟨rfl, rfl⟩

/-- Whatever is read stood in front. -/
theorem took_of_read {k : Category} {levels used : Nat} {scan : Scan} {r : Read k}
    (h : read k levels scan used = .ok r) : Took scan r.phrase.tokens r.scan := by
  -- Each phrase is read with fewer levels than the phrase around it, so the levels carry the
  -- induction through all five categories at once.
  induction levels using Nat.strongRecOn generalizing k used scan with
  | ind levels ih =>
      cases k with
      | expression =>
          cases levels with
          | zero => cases h
          | succ levels =>
              obtain ⟨p, q, hp, htook⟩ := took_pair h
                (fun _ => ih levels (by omega) (k := .chain))
                (fun _ _ => ih levels (by omega) (k := .moreChains))
              rw [hp]
              exact htook
      | moreChains =>
          rw [read, readMoreChains] at h
          split at h
          · rename_i hlexemes
            cases levels with
            | zero => cases h
            | succ levels =>
                obtain ⟨moved, hmoved, h⟩ := bind_eq_ok.1 h
                obtain ⟨p, q, hp, htook⟩ := took_pair h
                  (fun _ => ih levels (by omega) (k := .chain))
                  (fun _ _ => ih levels (by omega) (k := .moreChains))
                rw [hp]
                exact (Took.token hlexemes hmoved).trans htook
          · obtain ⟨hphrase, hscan⟩ := leaf_of_ok h
            rw [hphrase, hscan]
            exact .refl scan
      | chain =>
          cases levels with
          | zero => cases h
          | succ levels =>
              obtain ⟨p, q, hp, htook⟩ := took_pair h
                (fun _ => ih levels (by omega) (k := .factor))
                (fun _ _ => ih levels (by omega) (k := .moreFactors))
              rw [hp]
              exact htook
      | moreFactors =>
          rw [read, readMoreFactors] at h
          split at h
          · rename_i hlexemes
            cases levels with
            | zero => cases h
            | succ levels =>
                obtain ⟨moved, hmoved, h⟩ := bind_eq_ok.1 h
                obtain ⟨p, q, hp, htook⟩ := took_pair h
                  (fun _ => ih levels (by omega) (k := .factor))
                  (fun _ _ => ih levels (by omega) (k := .moreFactors))
                rw [hp]
                exact (Took.token hlexemes hmoved).trans htook
          · obtain ⟨hphrase, hscan⟩ := leaf_of_ok h
            rw [hphrase, hscan]
            exact .refl scan
      | factor =>
          rw [read, readFactor] at h
          split at h
          · rename_i hlexemes
            cases levels with
            | zero => cases h
            | succ levels =>
                obtain ⟨moved, hmoved, h⟩ := bind_eq_ok.1 h
                obtain ⟨inner, hinner, h⟩ := bind_eq_ok.1 h
                have htook := ih levels (by omega) (k := .expression) hinner
                split at h
                · rename_i hclose
                  obtain ⟨closed, hclosed, h⟩ := bind_eq_ok.1 h
                  cases h
                  exact (Took.token hlexemes hmoved).trans (htook.trans (.token hclose hclosed))
                · cases h
          · rename_i hlexemes
            cases levels with
            | zero => cases h
            | succ levels =>
                simp only [bind_eq_ok] at h
                obtain ⟨moved, hmoved, operand, hoperand, used, -, h⟩ := h
                cases h
                have htook := ih levels (by omega) (k := .factor) hoperand
                exact (Took.token hlexemes hmoved).trans htook
          · rename_i hlexemes
            obtain ⟨moved, hmoved, h⟩ := bind_eq_ok.1 h
            obtain ⟨hphrase, hscan⟩ := leaf_of_ok h
            rw [hphrase, hscan]
            exact .token hlexemes hmoved
          · rename_i hlexemes
            obtain ⟨moved, hmoved, h⟩ := bind_eq_ok.1 h
            obtain ⟨hphrase, hscan⟩ := leaf_of_ok h
            rw [hphrase, hscan]
            exact .token hlexemes hmoved
          · cases h

/-! ### Whole texts -/

theorem ready_of_ok (lexemes : List Lexeme) (position : Nat) :
    (⟨lexemes, .ok position⟩ : Scan).ready = .ok ⟨lexemes, .ok position⟩ := by
  cases lexemes <;> rfl

theorem fits_whole {p : Phrase k} : p.Fits nodeLimit 0 ↔ p.size ≤ nodeLimit := by
  have := p.depth_lt_size.1
  simp only [Fits]
  omega

/-- Only the nodes decide about a text that spells an expression. -/
theorem parse_of_finds {text : List Char} {p : Phrase .expression}
    (h : (Cursor.start text).scan.Finds p.tokens) :
    parse text = if p.size ≤ nodeLimit then .ok p else .error .tooManyNodes := by
  obtain ⟨htokens, position, hending⟩ := h
  unfold parse
  generalize (Cursor.start text).scan = scan at htokens hending
  obtain ⟨lexemes, ending⟩ := scan
  subst hending
  have hnothing : MayFollow .expression [] := by simp [MayFollow]
  have hread := read_of_tokens p nodeLimit 0 position htokens hnothing
  simp only [List.append_nil, read] at hread
  rw [ready_of_ok, ok_bind, hread]
  split
  · rename_i hsize
    rw [outcome_of_fits (fits_whole.2 hsize)]
    rfl
  · rename_i hsize
    rw [outcome_of_not_fits fun h => hsize (fits_whole.1 h)]
    rfl

theorem finds_of_parse {text : List Char} {p : Phrase .expression} (h : parse text = .ok p) :
    (Cursor.start text).scan.Finds p.tokens := by
  unfold parse at h
  generalize (Cursor.start text).scan = scan at h ⊢
  simp only [bind_eq_ok] at h
  obtain ⟨started, hstarted, r, hr, h⟩ := h
  obtain rfl := eq_of_ready hstarted
  change read .expression nodeLimit started 0 = .ok r at hr
  have htook := took_of_read hr
  split at h
  · rename_i hend
    cases h
    refine ⟨by simpa [hend] using htook.tokens, ?_⟩
    have hlast := htook.ready hstarted
    rw [← htook.ending]
    cases hending : r.scan.ending with
    | ok position => exact ⟨position, rfl⟩
    | error fault => simp [Scan.ready, hend, hending] at hlast
  · cases h

end TimeSwitch.Formula.Phrase
