import TimeSwitch.Formula.Phrase

/-!
Reading phrases from scanned lexemes, by descent with one lexeme of look-ahead. Two limits hold
while reading: every phrase takes a node when it is complete, and phrases that are still open
nest no deeper than there are nodes. A fault of the scan is met when the reader moves onto it,
not before.
-/

namespace TimeSwitch.Formula

/-- Counts one node more, unless all are taken. -/
def takeNode (used : Nat) : Except Fault Nat :=
  if used < nodeLimit then .ok (used + 1) else .error .tooManyNodes

namespace Scan

/-- Ready to read on; fails if the scan ended here by a fault. -/
def ready (scan : Scan) : Except Fault Scan :=
  match scan.lexemes, scan.ending with
  | [], .error fault => .error fault
  | _, _ => .ok scan

/-- Moves on to the lexemes `rest`. -/
def moveTo (scan : Scan) (rest : List Lexeme) : Except Fault Scan :=
  ready { scan with lexemes := rest }

/-- The fault of standing where the scan stands. -/
def unexpectedHere (scan : Scan) : Fault :=
  match scan.lexemes, scan.ending with
  | l :: _, _ => .unexpected (some l.symbol) l.position
  | [], .ok position => .unexpected none position
  | [], .error fault => fault

/-- The fault of a group that is not closed where the scan stands. -/
def unclosedHere (scan : Scan) : Fault :=
  match scan.lexemes, scan.ending with
  | l :: _, _ => .unclosed l.position
  | [], .ok position => .unclosed position
  | [], .error fault => fault

end Scan

/-- A phrase that was read, the scan after it and the nodes used up to there. -/
structure Read (k : Category) where
  phrase : Phrase k
  scan : Scan
  used : Nat

namespace Phrase

mutual

/-- Reads an expression; `levels` is how many phrases more may be open inside one another. -/
def readExpression : (levels : Nat) → Scan → Nat → Except Fault (Read .expression)
  | 0, _, _ => .error .tooManyNodes
  | levels + 1, scan, used => do
    let first ← readChain levels scan used
    let others ← readMoreChains levels first.scan first.used
    let used ← takeNode others.used
    return ⟨.expression first.phrase others.phrase, others.scan, used⟩
termination_by structural levels => levels

def readMoreChains : (levels : Nat) → Scan → Nat → Except Fault (Read .moreChains)
  | levels, scan, used =>
    match scan.lexemes with
    | ⟨.and, _, _⟩ :: rest =>
      match levels with
      | 0 => .error .tooManyNodes
      | levels + 1 => do
        let scan ← scan.moveTo rest
        let next ← readChain levels scan used
        let others ← readMoreChains levels next.scan next.used
        let used ← takeNode others.used
        return ⟨.and next.phrase others.phrase, others.scan, used⟩
    | _ => do
      let used ← takeNode used
      return ⟨.endOfExpression, scan, used⟩
termination_by structural levels => levels

def readChain : (levels : Nat) → Scan → Nat → Except Fault (Read .chain)
  | 0, _, _ => .error .tooManyNodes
  | levels + 1, scan, used => do
    let first ← readFactor levels scan used
    let others ← readMoreFactors levels first.scan first.used
    let used ← takeNode others.used
    return ⟨.chain first.phrase others.phrase, others.scan, used⟩
termination_by structural levels => levels

def readMoreFactors : (levels : Nat) → Scan → Nat → Except Fault (Read .moreFactors)
  | levels, scan, used =>
    match scan.lexemes with
    | ⟨.or, _, _⟩ :: rest =>
      match levels with
      | 0 => .error .tooManyNodes
      | levels + 1 => do
        let scan ← scan.moveTo rest
        let next ← readFactor levels scan used
        let others ← readMoreFactors levels next.scan next.used
        let used ← takeNode others.used
        return ⟨.or next.phrase others.phrase, others.scan, used⟩
    | _ => do
      let used ← takeNode used
      return ⟨.endOfChain, scan, used⟩
termination_by structural levels => levels

def readFactor : (levels : Nat) → Scan → Nat → Except Fault (Read .factor)
  | levels, scan, used =>
    match scan.lexemes with
    | ⟨.openGroup, _, _⟩ :: rest =>
      match levels with
      | 0 => .error .tooManyNodes
      | levels + 1 => do
        let scan ← scan.moveTo rest
        let inner ← readExpression levels scan used
        match inner.scan.lexemes with
        | ⟨.closeGroup, _, _⟩ :: rest =>
          let scan ← inner.scan.moveTo rest
          return ⟨.group inner.phrase, scan, inner.used⟩
        | _ => .error inner.scan.unclosedHere
    | ⟨.not, _, _⟩ :: rest =>
      match levels with
      | 0 => .error .tooManyNodes
      | levels + 1 => do
        let scan ← scan.moveTo rest
        let operand ← readFactor levels scan used
        let used ← takeNode operand.used
        return ⟨.not operand.phrase, operand.scan, used⟩
    | ⟨.signal s, _, _⟩ :: rest => do
      let scan ← scan.moveTo rest
      let used ← takeNode used
      return ⟨.signal s, scan, used⟩
    | ⟨.truth value, _, _⟩ :: rest => do
      let scan ← scan.moveTo rest
      let used ← takeNode used
      return ⟨.truth value, scan, used⟩
    | _ => .error scan.unexpectedHere
termination_by structural levels => levels

end

/-- The expression that a whole text spells. -/
def parse (text : List Char) : Except Fault (Phrase .expression) := do
  let scan ← (Cursor.start text).scan.ready
  let read ← readExpression nodeLimit scan 0
  match read.scan.lexemes with
  | [] => return read.phrase
  | _ :: _ => .error read.scan.unexpectedHere

end Phrase

end TimeSwitch.Formula
