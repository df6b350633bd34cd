import TimeSwitch.Formula.Phrase

/-!
Formulas laid out as numbered nodes, where a node names its operands by number. A phrase is laid
out with its operands first, so its root comes last; a group adds no node. The order in which
operands are laid out is not always the order in which a node names them: a joined part is laid
out first and named second.
-/

namespace TimeSwitch.Formula

inductive Node
  | and (left right : Nat)
  | or (left right : Nat)
  | not (operand : Nat)
  | signal (s : Signal)
  | literal (value : Bool)
  deriving DecidableEq, Repr

/-- Nodes stored one after the other, as far as there is room. -/
structure NodeStore where
  nodes : List Node
  deriving DecidableEq, Repr

namespace NodeStore

def empty : NodeStore := ⟨[]⟩

def size (store : NodeStore) : Nat := store.nodes.length

def get? (store : NodeStore) (number : Nat) : Option Node := store.nodes[number]?

/-- Stores a node and gives its number, unless the store is full. -/
def add (store : NodeStore) (node : Node) : Except Fault (Nat × NodeStore) :=
  if store.size < nodeLimit then .ok (store.size, ⟨store.nodes ++ [node]⟩)
  else .error .tooManyNodes

end NodeStore

namespace Phrase

/-- The number of a phrase's root when its layout begins at number `start`. -/
def rootAt (start : Nat) (p : Phrase k) : Nat :=
  start + p.size - 1

/-- The nodes of a phrase, the first of them numbered `start`. -/
def nodesAt (start : Nat) : Phrase k → List Node
  | expression first others =>
    let mid := start + first.size
    first.nodesAt start ++ others.nodesAt mid ++ [.and (first.rootAt start) (others.rootAt mid)]
  | endOfExpression => [.literal true]
  | and next others =>
    let mid := start + next.size
    next.nodesAt start ++ others.nodesAt mid ++ [.and (others.rootAt mid) (next.rootAt start)]
  | chain first others =>
    let mid := start + first.size
    first.nodesAt start ++ others.nodesAt mid ++ [.or (first.rootAt start) (others.rootAt mid)]
  | endOfChain => [.literal false]
  | or next others =>
    let mid := start + next.size
    next.nodesAt start ++ others.nodesAt mid ++ [.or (others.rootAt mid) (next.rootAt start)]
  | not operand => operand.nodesAt start ++ [.not (operand.rootAt start)]
  | group inner => inner.nodesAt start
  | signal s => [.signal s]
  | truth value => [.literal value]

@[simp] theorem length_nodesAt (start : Nat) (p : Phrase k) :
    (p.nodesAt start).length = p.size := by
  induction p generalizing start <;> simp_all [nodesAt, size, Nat.add_assoc]

end Phrase

end TimeSwitch.Formula
