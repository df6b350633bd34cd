import TimeSwitch.Formula.Node
import TimeSwitch.Formula.Parse

/-!
Storing the nodes of a formula while it is read. Every reader of `Formula.Parse` has its counterpart
here, which stores a node where the other counts one and gives its number. A fault leaves the nodes
that were stored up to there.
-/

namespace TimeSwitch.Formula

/-- The scan from where a reader stands, and the nodes stored so far. -/
structure Workbench where
  scan : Scan
  store : NodeStore

abbrev Building := EStateM Fault Workbench

namespace Building

/-- Ready to read on; fails if the scan ended here by a fault. -/
def ready : Building Unit := fun bench =>
  match bench.scan.ready with
  | .ok scan => .ok () { bench with scan }
  | .error fault => .error fault bench

/-- Moves on to the lexemes `rest`. -/
def moveTo (rest : List Lexeme) : Building Unit := fun bench =>
  match bench.scan.moveTo rest with
  | .ok scan => .ok () { bench with scan }
  | .error fault => .error fault bench

/-- Stores a node and gives its number. -/
def add (node : Node) : Building Nat := fun bench =>
  match bench.store.add node with
  | .ok (number, store) => .ok number { bench with store }
  | .error fault => .error fault bench

/-- Moves past the end of a group, which has to stand here. -/
def close : Building Unit := fun bench =>
  match bench.scan.lexemes with
  | ⟨.closeGroup, _, _⟩ :: rest => moveTo rest bench
  | _ => .error bench.scan.unclosedHere bench

mutual

/-- Stores an expression and gives the number of its root; `levels` is how many phrases more may be
open inside one another. -/
def expression : (levels : Nat) → Building Nat
  | 0 => throw .tooManyNodes
  | levels + 1 => do
    let first ← chain levels
    let others ← moreChains levels
    add (.and first others)
termination_by structural levels => levels

def moreChains : (levels : Nat) → Building Nat
  | levels, bench =>
    match bench.scan.lexemes with
    | ⟨.and, _, _⟩ :: rest =>
      match levels with
      | 0 => .error .tooManyNodes bench
      | levels + 1 => (do
        moveTo rest
        let next ← chain levels
        let others ← moreChains levels
        add (.and others next)) bench
    | _ => add (.literal true) bench
termination_by structural levels => levels

def chain : (levels : Nat) → Building Nat
  | 0 => throw .tooManyNodes
  | levels + 1 => do
    let first ← factor levels
    let others ← moreFactors levels
    add (.or first others)
termination_by structural levels => levels

def moreFactors : (levels : Nat) → Building Nat
  | levels, bench =>
    match bench.scan.lexemes with
    | ⟨.or, _, _⟩ :: rest =>
      match levels with
      | 0 => .error .tooManyNodes bench
      | levels + 1 => (do
        moveTo rest
        let next ← factor levels
        let others ← moreFactors levels
        add (.or others next)) bench
    | _ => add (.literal false) bench
termination_by structural levels => levels

def factor : (levels : Nat) → Building Nat
  | levels, bench =>
    match bench.scan.lexemes with
    | ⟨.openGroup, _, _⟩ :: rest =>
      match levels with
      | 0 => .error .tooManyNodes bench
      | levels + 1 => (do
        moveTo rest
        let inner ← expression levels
        close
        return inner) bench
    | ⟨.not, _, _⟩ :: rest =>
      match levels with
      | 0 => .error .tooManyNodes bench
      | levels + 1 => (do
        moveTo rest
        let operand ← factor levels
        add (.not operand)) bench
    | ⟨.signal s, _, _⟩ :: rest => (do
      moveTo rest
      add (.signal s)) bench
    | ⟨.truth value, _, _⟩ :: rest => (do
      moveTo rest
      add (.literal value)) bench
    | _ => .error bench.scan.unexpectedHere bench
termination_by structural levels => levels

end

/-- Stores the expression that a whole text spells. -/
def whole : Building Nat := do
  ready
  let root ← expression nodeLimit
  match (← get).scan.lexemes with
  | [] => return root
  | _ :: _ => throw (← get).scan.unexpectedHere

/-- Stores the expression of a text behind the nodes that are there already. -/
def run (text : List Char) (store : NodeStore) : EStateM.Result Fault Workbench Nat :=
  whole ⟨(Cursor.start text).scan, store⟩

end Building

end TimeSwitch.Formula
