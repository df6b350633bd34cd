import TimeSwitch.Formula.Token

/-!
The grammar of formulas as a family of phrases. An expression joins chains by `&` and a chain
joins factors by `|`, so that `|` binds closer than `&`. What follows the first part of an
expression or a chain is a phrase of its own, possibly empty.

A phrase knows its tokens, its meaning and its size; the size counts one for every phrase inside
it, groups apart, and is what the node limit is about.
-/

namespace TimeSwitch.Formula

inductive Category
  | expression | moreChains | chain | moreFactors | factor
  deriving DecidableEq, Repr

inductive Phrase : Category → Type
  | expression (first : Phrase .chain) (others : Phrase .moreChains) : Phrase .expression
  | endOfExpression : Phrase .moreChains
  | and (next : Phrase .chain) (others : Phrase .moreChains) : Phrase .moreChains
  | chain (first : Phrase .factor) (others : Phrase .moreFactors) : Phrase .chain
  | endOfChain : Phrase .moreFactors
  | or (next : Phrase .factor) (others : Phrase .moreFactors) : Phrase .moreFactors
  | not (operand : Phrase .factor) : Phrase .factor
  | group (inner : Phrase .expression) : Phrase .factor
  | signal (s : Signal) : Phrase .factor
  | truth (value : Bool) : Phrase .factor

namespace Phrase

/-- The tokens that spell a phrase. -/
def tokens : Phrase k → List Token
  | expression first others => first.tokens ++ others.tokens
  | endOfExpression => []
  | and next others => .and :: (next.tokens ++ others.tokens)
  | chain first others => first.tokens ++ others.tokens
  | endOfChain => []
  | or next others => .or :: (next.tokens ++ others.tokens)
  | not operand => .not :: operand.tokens
  | group inner => .openGroup :: (inner.tokens ++ [.closeGroup])
  | signal s => [.signal s]
  | truth value => [.truth value]

/-- What a phrase means when the signals have the given values. Nothing more to join means true
among chains and false among factors. -/
def meaning (value : Signal → Bool) : Phrase k → Bool
  | expression first others => first.meaning value && others.meaning value
  | endOfExpression => true
  | and next others => next.meaning value && others.meaning value
  | chain first others => first.meaning value || others.meaning value
  | endOfChain => false
  | or next others => next.meaning value || others.meaning value
  | not operand => !operand.meaning value
  | group inner => inner.meaning value
  | signal s => value s
  | truth b => b

/-- The nodes that a phrase takes. -/
def size : Phrase k → Nat
  | expression first others => first.size + others.size + 1
  | endOfExpression => 1
  | and next others => next.size + others.size + 1
  | chain first others => first.size + others.size + 1
  | endOfChain => 1
  | or next others => next.size + others.size + 1
  | not operand => operand.size + 1
  | group inner => inner.size
  | signal _ => 1
  | truth _ => 1

theorem size_pos : (p : Phrase k) → 0 < p.size
  | expression .. | endOfExpression | and .. | chain .. | endOfChain | or .. | not _
  | signal _ | truth _ => by simp [size]
  | group inner => inner.size_pos

end Phrase

end TimeSwitch.Formula
