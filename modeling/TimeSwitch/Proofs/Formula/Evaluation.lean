import TimeSwitch.Formula.Expression

/-!
Evaluating the nodes of a phrase is evaluating the phrase. The layout names some operands in
reverse, and the phrase is evaluated in that order, so that the effects agree as well.
-/

namespace TimeSwitch.Formula

/-! ### One node -/

namespace NodeStore

variable {m : Type → Type u} [Monad m] {store : NodeStore} {call : Signal → m Bool}
  {number left right operand : Nat}

theorem evaluate_and (h : store.get? number = some (.and left right)) (hleft : left < number)
    (hright : right < number) :
    store.evaluate call number = do
      let a ← store.evaluate call left
      let b ← store.evaluate call right
      return a && b := by
  rw [evaluate, h]
  simp only [if_pos hleft, if_pos hright]

theorem evaluate_or (h : store.get? number = some (.or left right)) (hleft : left < number)
    (hright : right < number) :
    store.evaluate call number = do
      let a ← store.evaluate call left
      let b ← store.evaluate call right
      return a || b := by
  rw [evaluate, h]
  simp only [if_pos hleft, if_pos hright]

theorem evaluate_not (h : store.get? number = some (.not operand)) (hoperand : operand < number) :
    store.evaluate call number = do
      let a ← store.evaluate call operand
      return !a := by
  rw [evaluate, h]
  simp only [if_pos hoperand]

theorem evaluate_signal {s : Signal} (h : store.get? number = some (.signal s)) :
    store.evaluate call number = call s := by
  rw [evaluate, h]

theorem evaluate_literal {b : Bool} (h : store.get? number = some (.literal b)) :
    store.evaluate call number = pure b := by
  rw [evaluate, h]

/-- Nodes are in the store one after the other, the first of them numbered `start`. -/
def Holds (store : NodeStore) (start : Nat) (nodes : List Node) : Prop :=
  ∃ before after, before.length = start ∧ store.nodes = before ++ nodes ++ after

variable {start : Nat} {a b : List Node}

theorem Holds.front (h : store.Holds start (a ++ b)) : store.Holds start a := by
  obtain ⟨before, after, hstart, hnodes⟩ := h
  exact ⟨before, b ++ after, hstart, by simp [hnodes]⟩

theorem Holds.back (h : store.Holds start (a ++ b)) : store.Holds (start + a.length) b := by
  obtain ⟨before, after, hstart, hnodes⟩ := h
  exact ⟨before ++ a, after, by simp [hstart], by simp [hnodes]⟩

theorem Holds.get? {node : Node} (h : store.Holds start [node]) :
    store.get? start = some node := by
  obtain ⟨before, after, rfl, hnodes⟩ := h
  simp [NodeStore.get?, hnodes]

end NodeStore

/-! ### A whole phrase -/

namespace Phrase

/-- Evaluates a phrase as its nodes are evaluated: what follows a later part goes before it. -/
def run [Monad m] (call : Signal → m Bool) : Phrase k → m Bool
  | expression first others => do
    let a ← first.run call
    let b ← others.run call
    return a && b
  | endOfExpression => pure true
  | and next others => do
    let a ← others.run call
    let b ← next.run call
    return a && b
  | chain first others => do
    let a ← first.run call
    let b ← others.run call
    return a || b
  | endOfChain => pure false
  | or next others => do
    let a ← others.run call
    let b ← next.run call
    return a || b
  | not operand => do
    let a ← operand.run call
    return !a
  | group inner => inner.run call
  | signal s => call s
  | truth b => pure b

theorem rootAt_of_size {p : Phrase k} {start n : Nat} (h : p.size = n + 1) :
    p.rootAt start = start + n := by
  rw [rootAt, h]
  rfl

/-- A phrase of two parts laid out one after the other: where its node is, and that the parts'
roots come before it. -/
theorem holds_pair {p : Phrase k₁} {q : Phrase k₂} {store : NodeStore} {start : Nat} {node : Node}
    (h : store.Holds start
      (p.nodesAt start ++ q.nodesAt (start + p.size) ++ [node])) :
    store.Holds start (p.nodesAt start) ∧
      store.Holds (start + p.size) (q.nodesAt (start + p.size)) ∧
      store.get? (start + (p.size + q.size)) = some node ∧
      p.rootAt start < start + (p.size + q.size) ∧
      q.rootAt (start + p.size) < start + (p.size + q.size) := by
  have hp := p.size_pos
  have hq := q.size_pos
  refine ⟨h.front.front, ?_, ?_, ?_, ?_⟩
  · simpa using h.front.back
  · simpa using h.back.get?
  all_goals
    unfold rootAt
    omega

/-- The node of a phrase with one part, and that the part's root comes before it. -/
theorem holds_not {operand : Phrase .factor} {store : NodeStore} {start : Nat}
    (h : store.Holds start ((not operand).nodesAt start)) :
    store.get? (start + operand.size) = some (.not (operand.rootAt start)) ∧
      operand.rootAt start < start + operand.size := by
  have hpos := operand.size_pos
  refine ⟨by simpa using h.back.get?, ?_⟩
  unfold rootAt
  omega

theorem evaluate_rootAt [Monad m] {call : Signal → m Bool} {store : NodeStore} (p : Phrase k)
    {start : Nat} (h : store.Holds start (p.nodesAt start)) :
    store.evaluate call (p.rootAt start) = p.run call := by
  induction p generalizing start with
  | expression first others ihFirst ihOthers =>
      obtain ⟨hfirst, hothers, hnode, hlt, hlt'⟩ := holds_pair h
      rw [rootAt_of_size rfl, NodeStore.evaluate_and hnode hlt hlt', ihFirst hfirst,
        ihOthers hothers, run]
  | endOfExpression => exact NodeStore.evaluate_literal h.get?
  | and next others ihNext ihOthers =>
      obtain ⟨hnext, hothers, hnode, hlt, hlt'⟩ := holds_pair h
      -- The node names what follows first, though it is laid out second.
      rw [rootAt_of_size rfl, NodeStore.evaluate_and hnode hlt' hlt, ihNext hnext,
        ihOthers hothers, run]
  | chain first others ihFirst ihOthers =>
      obtain ⟨hfirst, hothers, hnode, hlt, hlt'⟩ := holds_pair h
      rw [rootAt_of_size rfl, NodeStore.evaluate_or hnode hlt hlt', ihFirst hfirst,
        ihOthers hothers, run]
  | endOfChain => exact NodeStore.evaluate_literal h.get?
  | or next others ihNext ihOthers =>
      obtain ⟨hnext, hothers, hnode, hlt, hlt'⟩ := holds_pair h
      rw [rootAt_of_size rfl, NodeStore.evaluate_or hnode hlt' hlt, ihNext hnext,
        ihOthers hothers, run]
  | not operand ih =>
      obtain ⟨hnode, hlt⟩ := holds_not h
      rw [rootAt_of_size rfl, NodeStore.evaluate_not hnode hlt, ih h.front, run]
  | group inner ih => exact ih h
  | signal s => exact NodeStore.evaluate_signal h.get?
  | truth b => exact NodeStore.evaluate_literal h.get?

/-- Without effects the order does not matter. -/
theorem run_pure (value : Signal → Bool) (p : Phrase k) :
    p.run (m := Id) (fun s => pure (value s)) = p.meaning value := by
  induction p with
  | and next others ihNext ihOthers =>
      rw [meaning, ← ihNext, ← ihOthers, Bool.and_comm]
      rfl
  | or next others ihNext ihOthers =>
      rw [meaning, ← ihNext, ← ihOthers, Bool.or_comm]
      rfl
  | expression first others ihFirst ihOthers | chain first others ihFirst ihOthers =>
      rw [meaning, ← ihFirst, ← ihOthers]
      rfl
  | not operand ih =>
      rw [meaning, ← ih]
      rfl
  | group inner ih => exact ih
  | endOfExpression | endOfChain | signal _ | truth _ => rfl

end Phrase

namespace Expression

theorem holds_ofPhrase (p : Phrase .expression) :
    (ofPhrase p).nodes.Holds 0 (p.nodesAt 0) :=
  ⟨[], [], rfl, by simp [ofPhrase]⟩

theorem evaluateM_ofPhrase [Monad m] (p : Phrase .expression) (call : Signal → m Bool) :
    (ofPhrase p).evaluateM call = p.run call :=
  p.evaluate_rootAt (holds_ofPhrase p)

theorem evaluate_ofPhrase (p : Phrase .expression) (value : Signal → Bool) :
    (ofPhrase p).evaluate value = p.meaning value := by
  rw [evaluate, evaluateM_ofPhrase]
  exact p.run_pure value

theorem size_ofPhrase (p : Phrase .expression) : (ofPhrase p).nodes.size = p.size :=
  p.length_nodesAt 0

end Expression

end TimeSwitch.Formula
