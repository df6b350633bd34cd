import Mathlib.Algebra.GroupWithZero.Nat
import TimeSwitch.Formula.Phrase

/-!
The grammar of formulas rule by rule: an expression is one chain or several, joined by `&`, and
a chain is one factor or several, joined by `|`. Phrases spell the same grammar with what follows
a first part as a phrase of its own; `derives_expression_iff` says that the two agree.
-/

namespace TimeSwitch.Formula

/-- A piece of a formula as the grammar sees it. -/
structure Sentence where
  tokens : List Token
  /-- The nodes it takes. -/
  need : Nat
  meaning : (Signal → Bool) → Bool
  /-- The signals it calls when it is evaluated, in order. -/
  calls : List Signal

namespace Sentence

/-- The order in which joined parts call: the first part, then the others from the last one
back. -/
def callOrder : List Sentence → List Signal
  | [] => []
  | first :: others => first.calls ++ others.reverse.flatMap calls

/-- Parts joined by a token. Besides what the parts need, this takes a node for each of them and
one more. -/
def joined (link : Token) (join : List Bool → Bool) (parts : List Sentence) : Sentence where
  tokens := [link].intercalate (parts.map tokens)
  need := (parts.map need).sum + (parts.length + 1)
  meaning value := join (parts.map fun part => part.meaning value)
  calls := callOrder parts

/-- What follows the first of joined parts. -/
def continued (link : Token) (join : List Bool → Bool) (parts : List Sentence) : Sentence where
  tokens := parts.flatMap fun part => link :: part.tokens
  need := (parts.map need).sum + (parts.length + 1)
  meaning value := join (parts.map fun part => part.meaning value)
  calls := parts.reverse.flatMap calls

variable {link : Token} {join : List Bool → Bool} {op : Bool → Bool → Bool}

theorem intercalate_tokens (link : Token) (first : List Token) (others : List Sentence) :
    [link].intercalate (first :: others.map tokens) =
      first ++ others.flatMap fun part => link :: part.tokens := by
  induction others generalizing first with
  | nil => simp [List.intercalate]
  | cons next others ih =>
      have := ih next.tokens
      simp only [List.intercalate, List.map_cons, List.intersperse_cons_cons, List.flatten_cons,
        List.flatMap_cons] at this ⊢
      rw [this]
      simp

/-- One part more in front of those that follow. -/
theorem continued_cons (hjoin : ∀ b bs, join (b :: bs) = op b (join bs)) (part : Sentence)
    (parts : List Sentence) :
    continued link join (part :: parts) =
      { tokens := link :: (part.tokens ++ (continued link join parts).tokens)
        need := part.need + (continued link join parts).need + 1
        meaning := fun value => op (part.meaning value) ((continued link join parts).meaning value)
        calls := (continued link join parts).calls ++ part.calls } := by
  simp only [continued, Sentence.mk.injEq, List.map_cons, hjoin, true_and]
  refine ⟨by simp, ?_, by simp⟩
  simp only [List.sum_cons, List.length_cons]
  omega

/-- Joined parts are the first of them and what follows it. -/
theorem joined_cons (hjoin : ∀ b bs, join (b :: bs) = op b (join bs)) (part : Sentence)
    (parts : List Sentence) :
    joined link join (part :: parts) =
      { tokens := part.tokens ++ (continued link join parts).tokens
        need := part.need + (continued link join parts).need + 1
        meaning := fun value => op (part.meaning value) ((continued link join parts).meaning value)
        calls := part.calls ++ (continued link join parts).calls } := by
  simp only [joined, continued, Sentence.mk.injEq, List.map_cons, hjoin, intercalate_tokens,
    callOrder, and_true, true_and]
  simp only [List.sum_cons, List.length_cons]
  omega

end Sentence

/-- The rules of the grammar. -/
inductive Derives : Category → Sentence → Prop
  | expression {chains : List Sentence} (hsome : chains ≠ [])
      (hchains : ∀ chain ∈ chains, Derives .chain chain) :
      Derives .expression (.joined .and (·.all id) chains)
  | chain {factors : List Sentence} (hsome : factors ≠ [])
      (hfactors : ∀ factor ∈ factors, Derives .factor factor) :
      Derives .chain (.joined .or (·.any id) factors)
  /-- A group takes no node of its own. -/
  | group {inner : Sentence} (hinner : Derives .expression inner) :
      Derives .factor { inner with tokens := .openGroup :: (inner.tokens ++ [.closeGroup]) }
  | not {operand : Sentence} (hoperand : Derives .factor operand) :
      Derives .factor
        { operand with
          tokens := .not :: operand.tokens
          need := operand.need + 1
          meaning := fun value => !operand.meaning value }
  | signal (s : Signal) : Derives .factor ⟨[.signal s], 1, fun value => value s, [s]⟩
  | truth (b : Bool) : Derives .factor ⟨[.truth b], 1, fun _ => b, []⟩

namespace Phrase

/-- The signals that a phrase calls, in order: a node calls what it names first. -/
def calls : Phrase k → List Signal
  | expression first others => first.calls ++ others.calls
  | endOfExpression => []
  | and next others => others.calls ++ next.calls
  | chain first others => first.calls ++ others.calls
  | endOfChain => []
  | or next others => others.calls ++ next.calls
  | not operand => operand.calls
  | group inner => inner.calls
  | signal s => [s]
  | truth _ => []

def sentence (p : Phrase k) : Sentence :=
  ⟨p.tokens, p.size, fun value => p.meaning value, p.calls⟩

theorem all_id_cons (b : Bool) (bs : List Bool) : (b :: bs).all id = (b && bs.all id) := rfl

theorem any_id_cons (b : Bool) (bs : List Bool) : (b :: bs).any id = (b || bs.any id) := rfl

variable {parts : List Sentence}

theorem sentence_and {next : Phrase .chain} {others : Phrase .moreChains}
    (h : others.sentence = .continued .and (·.all id) parts) :
    (and next others).sentence = .continued .and (·.all id) (next.sentence :: parts) := by
  rw [Sentence.continued_cons all_id_cons, ← h]
  rfl

theorem sentence_or {next : Phrase .factor} {others : Phrase .moreFactors}
    (h : others.sentence = .continued .or (·.any id) parts) :
    (or next others).sentence = .continued .or (·.any id) (next.sentence :: parts) := by
  rw [Sentence.continued_cons any_id_cons, ← h]
  rfl

theorem sentence_expression {first : Phrase .chain} {others : Phrase .moreChains}
    (h : others.sentence = .continued .and (·.all id) parts) :
    (expression first others).sentence = .joined .and (·.all id) (first.sentence :: parts) := by
  rw [Sentence.joined_cons all_id_cons, ← h]
  rfl

theorem sentence_chain {first : Phrase .factor} {others : Phrase .moreFactors}
    (h : others.sentence = .continued .or (·.any id) parts) :
    (chain first others).sentence = .joined .or (·.any id) (first.sentence :: parts) := by
  rw [Sentence.joined_cons any_id_cons, ← h]
  rfl

/-! ### From phrases to the rules and back -/

/-- What the rules say of a phrase. What follows a first part is no rule's left side. -/
def FollowsRules : {k : Category} → Phrase k → Prop
  | .moreChains, p => ∃ chains : List Sentence, (∀ chain ∈ chains, Derives .chain chain) ∧
      p.sentence = .continued .and (·.all id) chains
  | .moreFactors, p => ∃ factors : List Sentence, (∀ factor ∈ factors, Derives .factor factor) ∧
      p.sentence = .continued .or (·.any id) factors
  | k, p => Derives k p.sentence

theorem followsRules (p : Phrase k) : p.FollowsRules := by
  induction p with
  | expression first others ihFirst ihOthers =>
      obtain ⟨chains, hchains, h⟩ := ihOthers
      simp only [FollowsRules] at ihFirst ⊢
      rw [sentence_expression h]
      exact .expression (by simp) (by simpa [ihFirst] using hchains)
  | endOfExpression => exact ⟨[], by simp, rfl⟩
  | and next others ihNext ihOthers =>
      obtain ⟨chains, hchains, h⟩ := ihOthers
      exact ⟨_, by simpa [ihNext] using ⟨ihNext, hchains⟩, sentence_and h⟩
  | chain first others ihFirst ihOthers =>
      obtain ⟨factors, hfactors, h⟩ := ihOthers
      simp only [FollowsRules] at ihFirst ⊢
      rw [sentence_chain h]
      exact .chain (by simp) (by simpa [ihFirst] using hfactors)
  | endOfChain => exact ⟨[], by simp, rfl⟩
  | or next others ihNext ihOthers =>
      obtain ⟨factors, hfactors, h⟩ := ihOthers
      exact ⟨_, by simpa using ⟨ihNext, hfactors⟩, sentence_or h⟩
  | not operand ih => exact .not ih
  | group inner ih => exact .group ih
  | signal s => exact .signal s
  | truth b => exact .truth b

theorem exists_moreChains {chains : List Sentence}
    (h : ∀ c ∈ chains, ∃ p : Phrase .chain, p.sentence = c) :
    ∃ p : Phrase .moreChains, p.sentence = .continued .and (·.all id) chains := by
  induction chains with
  | nil => exact ⟨endOfExpression, rfl⟩
  | cons c chains ih =>
      obtain ⟨⟨next, rfl⟩, hchains⟩ := List.forall_mem_cons.1 h
      obtain ⟨others, hothers⟩ := ih hchains
      exact ⟨and next others, sentence_and hothers⟩

theorem exists_moreFactors {factors : List Sentence}
    (h : ∀ f ∈ factors, ∃ p : Phrase .factor, p.sentence = f) :
    ∃ p : Phrase .moreFactors, p.sentence = .continued .or (·.any id) factors := by
  induction factors with
  | nil => exact ⟨endOfChain, rfl⟩
  | cons f factors ih =>
      obtain ⟨⟨next, rfl⟩, hfactors⟩ := List.forall_mem_cons.1 h
      obtain ⟨others, hothers⟩ := ih hfactors
      exact ⟨or next others, sentence_or hothers⟩

theorem exists_of_derives {k : Category} {s : Sentence} (h : Derives k s) :
    ∃ p : Phrase k, p.sentence = s := by
  induction h with
  | @expression chains hsome _ ih =>
      obtain ⟨c, chains, rfl⟩ := List.exists_cons_of_ne_nil hsome
      obtain ⟨⟨first, rfl⟩, hchains⟩ := List.forall_mem_cons.1 ih
      obtain ⟨others, hothers⟩ := exists_moreChains hchains
      exact ⟨expression first others, sentence_expression hothers⟩
  | @chain factors hsome _ ih =>
      obtain ⟨f, factors, rfl⟩ := List.exists_cons_of_ne_nil hsome
      obtain ⟨⟨first, rfl⟩, hfactors⟩ := List.forall_mem_cons.1 ih
      obtain ⟨others, hothers⟩ := exists_moreFactors hfactors
      exact ⟨chain first others, sentence_chain hothers⟩
  | group _ ih =>
      obtain ⟨inner, rfl⟩ := ih
      exact ⟨group inner, rfl⟩
  | not _ ih =>
      obtain ⟨operand, rfl⟩ := ih
      exact ⟨not operand, rfl⟩
  | signal s => exact ⟨signal s, rfl⟩
  | truth b => exact ⟨truth b, rfl⟩

end Phrase

/-- The sentences that the rules derive as expressions are the phrases. -/
theorem derives_expression_iff {s : Sentence} :
    Derives .expression s ↔ ∃ p : Phrase .expression, p.sentence = s := by
  constructor
  · exact Phrase.exists_of_derives
  · rintro ⟨p, rfl⟩
    exact p.followsRules

end TimeSwitch.Formula
