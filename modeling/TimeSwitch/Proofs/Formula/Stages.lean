import TimeSwitch.Formula.Phrase

/-!
Expressions token by token. After some tokens an expression stands either where an operand has to
come or where one has just ended, with so many groups open; that is all that the tokens to come
depend on. `afterAll_eq_iff` says that the tokens that lead from nothing to an operand ended and no
group open are the tokens of expressions.
-/

namespace TimeSwitch.Formula

/-- Where an expression stands after some of its tokens. -/
inductive Stage
  | operand (groups : Nat)
  | operator (groups : Nat)
  deriving DecidableEq, Repr

namespace Stage

/-- The stage after one token more, if the token may stand there. -/
def after : Stage → Token → Option Stage
  | operand n, .not => some (operand n)
  | operand n, .openGroup => some (operand (n + 1))
  | operand n, .signal _ | operand n, .truth _ => some (operator n)
  | operator n, .and | operator n, .or => some (operand n)
  | operator (n + 1), .closeGroup => some (operator n)
  | _, _ => none

/-- Behind an operand only what joins or closes may stand. -/
theorem after_operator_eq_none {token : Token} {n : Nat} (hand : token ≠ .and) (hor : token ≠ .or)
    (hclose : token = .closeGroup → n = 0) : (operator n).after token = none := by
  unfold after
  split <;> simp_all

def afterAll (stage : Stage) (tokens : List Token) : Option Stage :=
  tokens.foldlM after stage

variable {stage : Stage} {tokens : List Token} {n : Nat}

@[simp] theorem afterAll_nil (stage : Stage) : stage.afterAll [] = some stage := rfl

@[simp] theorem afterAll_cons (stage : Stage) (token : Token) (tokens : List Token) :
    stage.afterAll (token :: tokens) = (stage.after token).bind (·.afterAll tokens) := by
  simp [afterAll]

@[simp] theorem afterAll_append (stage : Stage) (tokens rest : List Token) :
    stage.afterAll (tokens ++ rest) = (stage.afterAll tokens).bind (·.afterAll rest) := by
  simp [afterAll]

/-- The tokens that end an expression soonest. -/
def closing : Stage → List Token
  | operand n => .truth true :: List.replicate n .closeGroup
  | operator n => List.replicate n .closeGroup

theorem afterAll_replicate (n : Nat) :
    (operator n).afterAll (List.replicate n .closeGroup) = some (operator 0) := by
  induction n with
  | zero => rfl
  | succ n ih => simpa [List.replicate_succ, after] using ih

theorem afterAll_closing (stage : Stage) : stage.afterAll stage.closing = some (operator 0) := by
  cases stage with
  | operand n => exact afterAll_replicate n
  | operator n => exact afterAll_replicate n

/-! ### The tokens of phrases -/

/-- Where a phrase of a category begins. -/
def entry : Category → Nat → Stage
  | .expression, n | .chain, n | .factor, n => operand n
  | .moreChains, n | .moreFactors, n => operator n

theorem afterAll_tokens (p : Phrase k) (n : Nat) :
    (entry k n).afterAll p.tokens = some (operator n) := by
  induction p generalizing n <;> simp_all [Phrase.tokens, entry, after]

/-- The tokens that make an expression whole from a stage on: a factor where an operand has to
come, then more factors and more chains for each of the groups that are open. -/
inductive Completes : Stage → List Token → Prop
  | factor {n : Nat} {rest : List Token} (p : Phrase .factor)
      (hlater : Completes (operator n) rest) : Completes (operand n) (p.tokens ++ rest)
  | group {n : Nat} {rest : List Token} (factors : Phrase .moreFactors)
      (chains : Phrase .moreChains) (hlater : Completes (operator n) rest) :
      Completes (operator (n + 1)) (factors.tokens ++ chains.tokens ++ .closeGroup :: rest)
  | whole (factors : Phrase .moreFactors) (chains : Phrase .moreChains) :
      Completes (operator 0) (factors.tokens ++ chains.tokens)

namespace Completes

theorem not (h : Completes (.operand n) tokens) : Completes (.operand n) (.not :: tokens) := by
  cases h with
  | factor p hlater => simpa [Phrase.tokens] using Completes.factor (.not p) hlater

/-- With the group that is open first, a factor is complete. -/
theorem openGroup (h : Completes (.operand (n + 1)) tokens) :
    Completes (.operand n) (.openGroup :: tokens) := by
  cases h with
  | factor p hlater =>
      cases hlater with
      | group factors chains hlater =>
          simpa [Phrase.tokens] using
            Completes.factor (.group (.expression (.chain p factors) chains)) hlater

theorem or (h : Completes (.operand n) tokens) : Completes (.operator n) (.or :: tokens) := by
  cases h with
  | factor p hlater =>
      cases hlater with
      | group factors chains hlater =>
          simpa [Phrase.tokens] using Completes.group (.or p factors) chains hlater
      | whole factors chains =>
          simpa [Phrase.tokens] using Completes.whole (.or p factors) chains

theorem and (h : Completes (.operand n) tokens) : Completes (.operator n) (.and :: tokens) := by
  cases h with
  | factor p hlater =>
      cases hlater with
      | group factors chains hlater =>
          simpa [Phrase.tokens] using
            Completes.group .endOfChain (.and (.chain p factors) chains) hlater
      | whole factors chains =>
          simpa [Phrase.tokens] using
            Completes.whole .endOfChain (.and (.chain p factors) chains)

end Completes

theorem completes_of_afterAll (h : stage.afterAll tokens = some (operator 0)) :
    Completes stage tokens := by
  induction tokens generalizing stage with
  | nil =>
      obtain rfl : stage = operator 0 := by simpa using h
      exact .whole .endOfChain .endOfExpression
  | cons token tokens ih =>
      rw [afterAll_cons, Option.bind_eq_some_iff] at h
      obtain ⟨next, hnext, h⟩ := h
      have hlater := ih h
      unfold after at hnext
      split at hnext <;> cases hnext
      · exact hlater.not
      · exact hlater.openGroup
      · rename_i s
        exact .factor (.signal s) hlater
      · rename_i value
        exact .factor (.truth value) hlater
      · exact hlater.and
      · exact hlater.or
      · exact .group .endOfChain .endOfExpression hlater

/-- The tokens that lead to the end of an operand with no group open are the tokens of an
expression. -/
theorem afterAll_eq_iff :
    (operand 0).afterAll tokens = some (operator 0) ↔
      ∃ p : Phrase .expression, p.tokens = tokens := by
  constructor
  · intro h
    cases completes_of_afterAll h with
    | factor p hlater =>
        cases hlater with
        | whole factors chains =>
            exact ⟨.expression (.chain p factors) chains, by simp [Phrase.tokens]⟩
  · rintro ⟨p, rfl⟩
    exact afterAll_tokens p 0

end Stage

end TimeSwitch.Formula
