import TimeSwitch.Formula.Node
import TimeSwitch.Formula.Parse
import TimeSwitch.Text.Octets

/-!
Expressions ready to be evaluated: the nodes of a formula and the number of its root. Evaluation
calls every signal it meets, both operands of a node always and the left one first, so what is
called does not depend on the values.
-/

namespace TimeSwitch.Formula

structure Expression where
  nodes : NodeStore
  root : Nat
  deriving DecidableEq, Repr

/-- The value of the node with a number. Operands are earlier nodes; anything else, like a node
that is missing, reads false. -/
def NodeStore.evaluate [Monad m] (store : NodeStore) (call : Signal → m Bool) (number : Nat) :
    m Bool :=
  match store.get? number with
  | some (.and left right) => do
    let a ← if left < number then store.evaluate call left else pure false
    let b ← if right < number then store.evaluate call right else pure false
    return a && b
  | some (.or left right) => do
    let a ← if left < number then store.evaluate call left else pure false
    let b ← if right < number then store.evaluate call right else pure false
    return a || b
  | some (.not operand) => do
    let a ← if operand < number then store.evaluate call operand else pure false
    return !a
  | some (.signal s) => call s
  | some (.literal value) => pure value
  | none => pure false

namespace Expression

def ofPhrase (p : Phrase .expression) : Expression :=
  ⟨⟨p.nodesAt 0⟩, p.rootAt 0⟩

/-- The expression that a text spells. -/
def parse (text : String) : Except Fault Expression :=
  ofPhrase <$> Phrase.parse text.toList

/-- Evaluates with an effect for each signal called. -/
def evaluateM [Monad m] (e : Expression) (call : Signal → m Bool) : m Bool :=
  e.nodes.evaluate call e.root

def evaluate (e : Expression) (value : Signal → Bool) : Bool :=
  Id.run (e.evaluateM fun s => pure (value s))

/-- Reads a signal and adds it to the signals called so far. -/
def recordCall (value : Signal → Bool) (s : Signal) : StateM (List Signal) Bool :=
  fun calls => (value s, calls ++ [s])

/-- The value together with the signals called, in order. -/
def evaluateTraced (e : Expression) (value : Signal → Bool) : Bool × List Signal :=
  e.evaluateM (recordCall value) []

/-- The nodes that can be reached from a number, each followed by its operands from left to
right. Operands are earlier nodes. -/
def reach (store : NodeStore) (number : Nat) : List (Nat × Node) :=
  match store.get? number with
  | none => []
  | some node =>
    (number, node) :: match node with
      | .and left right | .or left right =>
        (if left < number then reach store left else []) ++
          (if right < number then reach store right else [])
      | .not operand => if operand < number then reach store operand else []
      | .signal _ | .literal _ => []

/-- The tree of an expression, from the root down. -/
def tree (e : Expression) : List (Nat × Node) :=
  reach e.nodes e.root

end Expression

/-- The value of a text over the signals, false if there is no text or it does not parse. -/
def valueOf (text : Option String) (value : Signal → Bool) : Bool :=
  match text with
  | none => false
  | some text => match Expression.parse text with
    | .ok e => e.evaluate value
    | .error _ => false

end TimeSwitch.Formula
