import Mathlib.Logic.Relation
import TimeSwitch.Proofs.Formula.Parsing

/-!
The nodes of an accepted text are a tree that takes up the whole store. In the layout of a phrase,
every number is that of the root or is named by one node in one place, and a node names earlier ones
only. So evaluating needs no guard against going round in circles: followed through the operands,
it comes to every node once and to nothing else.
-/

namespace TimeSwitch.Formula

/-- The operands of a node, in the order in which it names them. -/
def Node.operands : Node → List Nat
  | .and left right | .or left right => [left, right]
  | .not operand => [operand]
  | .signal _ | .literal _ => []

namespace NodeStore

/-- A node names an operand in the given place. -/
def Names (store : NodeStore) (number place operand : Nat) : Prop :=
  ∃ node, store.get? number = some node ∧ node.operands[place]? = some operand

/-- In a stretch of numbers, whatever a node names comes before it. -/
def NamesEarlier (store : NodeStore) (start stop : Nat) : Prop :=
  ∀ number node, start ≤ number → number < stop → store.get? number = some node →
    ∀ operand ∈ node.operands, operand < number

/-- A number leads to another through the operands. -/
def Reaches (store : NodeStore) : Nat → Nat → Prop :=
  Relation.ReflTransGen fun number operand => ∃ place, store.Names number place operand

/-- Evaluation as it goes through the operands wherever they are, with the numbers that it comes to.
A number without a node is come to as well, and has the value false. -/
inductive Evaluates (store : NodeStore) {σ : Type} (table : Signal → StateM σ Bool) :
    Nat → σ → List Nat → Bool × σ → Prop
  | and {number left right : Nat} {before between after : σ} {first second : List Nat} {a b : Bool}
      (hnode : store.get? number = some (.and left right))
      (hleft : Evaluates store table left before first (a, between))
      (hright : Evaluates store table right between second (b, after)) :
      Evaluates store table number before (number :: (first ++ second)) (a && b, after)
  | or {number left right : Nat} {before between after : σ} {first second : List Nat} {a b : Bool}
      (hnode : store.get? number = some (.or left right))
      (hleft : Evaluates store table left before first (a, between))
      (hright : Evaluates store table right between second (b, after)) :
      Evaluates store table number before (number :: (first ++ second)) (a || b, after)
  | not {number operand : Nat} {before after : σ} {visited : List Nat} {a : Bool}
      (hnode : store.get? number = some (.not operand))
      (hoperand : Evaluates store table operand before visited (a, after)) :
      Evaluates store table number before (number :: visited) (!a, after)
  | signal {number : Nat} {s : Signal} {state : σ} (hnode : store.get? number = some (.signal s)) :
      Evaluates store table number state [number] (table s state)
  | literal {number : Nat} {b : Bool} {state : σ} (hnode : store.get? number = some (.literal b)) :
      Evaluates store table number state [number] (b, state)
  | missing {number : Nat} {state : σ} (hnode : store.get? number = none) :
      Evaluates store table number state [number] (false, state)

/-! ### What evaluation comes to -/

/-- The numbers that evaluation comes to from a node, in order. -/
def visits (store : NodeStore) (number : Nat) : List Nat :=
  (Expression.reach store number).map Prod.fst

variable {store : NodeStore} {number left right operand : Nat}

theorem lt_size_iff : number < store.size ↔ ∃ node, store.get? number = some node := by
  rw [get?, size, ← Option.isSome_iff_exists, isSome_getElem?]

namespace NamesEarlier

variable {start middle stop : Nat} {node : Node}

theorem empty : store.NamesEarlier start start :=
  fun _ _ hstart hstop => absurd hstop (Nat.not_lt.2 hstart)

theorem append (h : store.NamesEarlier start middle) (h' : store.NamesEarlier middle stop) :
    store.NamesEarlier start stop := by
  intro number node hstart hstop hnode
  by_cases hmiddle : number < middle
  · exact h number node hstart hmiddle hnode
  · exact h' number node (Nat.not_lt.1 hmiddle) hstop hnode

/-- One node more behind a stretch. -/
theorem concat (h : store.NamesEarlier start stop) (hnode : store.get? stop = some node)
    (hoperands : ∀ operand ∈ node.operands, operand < stop) :
    store.NamesEarlier start (stop + 1) := by
  refine h.append fun number other hstart hstop hother => ?_
  obtain rfl : number = stop := by omega
  obtain rfl := Option.some.inj (hnode.symm.trans hother)
  exact hoperands

theorem lt (h : store.NamesEarlier 0 store.size) (hnode : store.get? number = some node)
    (hoperand : operand ∈ node.operands) : operand < number :=
  h number node (Nat.zero_le _) (lt_size_iff.2 ⟨node, hnode⟩) hnode operand hoperand

theorem lt_two (h : store.NamesEarlier 0 store.size) (hnode : store.get? number = some node)
    (hoperands : node.operands = [left, right]) : left < number ∧ right < number :=
  ⟨h.lt hnode (by simp [hoperands]), h.lt hnode (by simp [hoperands])⟩

theorem lt_one (h : store.NamesEarlier 0 store.size) (hnode : store.get? number = some node)
    (hoperands : node.operands = [operand]) : operand < number :=
  h.lt hnode (by simp [hoperands])

end NamesEarlier

section

variable {node : Node}

theorem visits_eq (hnode : store.get? number = some node)
    (hearlier : ∀ operand ∈ node.operands, operand < number) :
    store.visits number = number :: node.operands.flatMap store.visits := by
  rw [visits, Expression.reach, hnode]
  cases node with
  | and left right | or left right =>
      have hleft : left < number := hearlier left (by simp [Node.operands])
      have hright : right < number := hearlier right (by simp [Node.operands])
      simp [Node.operands, visits, hleft, hright]
  | not operand =>
      have hoperand : operand < number := hearlier operand (by simp [Node.operands])
      simp [Node.operands, visits, hoperand]
  | signal s => rfl
  | literal b => rfl

theorem visits_two (hnode : store.get? number = some node)
    (hoperands : node.operands = [left, right]) (hleft : left < number) (hright : right < number) :
    store.visits number = number :: (store.visits left ++ store.visits right) := by
  rw [visits_eq hnode (by simp [hoperands, hleft, hright]), hoperands]
  simp

theorem visits_one (hnode : store.get? number = some node) (hoperands : node.operands = [operand])
    (hoperand : operand < number) : store.visits number = number :: store.visits operand := by
  rw [visits_eq hnode (by simp [hoperands, hoperand]), hoperands]
  simp

theorem visits_leaf (hnode : store.get? number = some node) (hoperands : node.operands = []) :
    store.visits number = [number] := by
  rw [visits_eq hnode (by simp [hoperands]), hoperands]
  rfl

end

section

variable {σ : Type} {table : Signal → StateM σ Bool} {state : σ}

/-- Where nodes name earlier ones only, evaluation comes to an end. -/
theorem evaluates_visits (h : store.NamesEarlier 0 store.size) (hnumber : number < store.size) :
    store.Evaluates table number state (store.visits number)
      (store.evaluate table number state) := by
  induction number using Nat.strongRecOn generalizing state with
  | ind number ih =>
      have hpart {operand : Nat} (hlt : operand < number) (state : σ) :
          store.Evaluates table operand state (store.visits operand)
            (store.evaluate table operand state) :=
        ih operand hlt (hlt.trans hnumber)
      obtain ⟨node, hnode⟩ := lt_size_iff.1 hnumber
      cases node with
      | and left right =>
          obtain ⟨hleft, hright⟩ := h.lt_two hnode rfl
          rw [visits_two hnode rfl hleft hright, evaluate_and hnode hleft hright]
          exact .and hnode (hpart hleft _) (hpart hright _)
      | or left right =>
          obtain ⟨hleft, hright⟩ := h.lt_two hnode rfl
          rw [visits_two hnode rfl hleft hright, evaluate_or hnode hleft hright]
          exact .or hnode (hpart hleft _) (hpart hright _)
      | not operand =>
          have hoperand := h.lt_one hnode rfl
          rw [visits_one hnode rfl hoperand, evaluate_not hnode hoperand]
          exact .not hnode (hpart hoperand _)
      | signal s =>
          rw [visits_leaf hnode rfl, evaluate_signal hnode]
          exact .signal hnode
      | literal b =>
          rw [visits_leaf hnode rfl, evaluate_literal hnode]
          exact .literal hnode

theorem outcome_two {x y : StateM σ Bool} {f : Bool → Bool → Bool} {before between after : σ}
    {a b : Bool} (hx : (a, between) = x before) (hy : (b, after) = y between) :
    (f a b, after) = (do let a ← x; let b ← y; return f a b : StateM σ Bool) before := by
  show _ = (f (x before).1 (y (x before).2).1, (y (x before).2).2)
  rw [← hx, ← hy]

theorem outcome_one {x : StateM σ Bool} {f : Bool → Bool} {before after : σ} {a : Bool}
    (hx : (a, after) = x before) :
    (f a, after) = (do let a ← x; return f a : StateM σ Bool) before := by
  show _ = (f (x before).1, (x before).2)
  rw [← hx]

/-- It cannot go otherwise than it does. -/
theorem Evaluates.eq {visited : List Nat} {outcome : Bool × σ}
    (hevaluates : store.Evaluates table number state visited outcome)
    (h : store.NamesEarlier 0 store.size) (hnumber : number < store.size) :
    visited = store.visits number ∧ outcome = store.evaluate table number state := by
  induction hevaluates with
  | and hnode _ _ ihLeft ihRight =>
      obtain ⟨hleft, hright⟩ := h.lt_two hnode rfl
      obtain ⟨rfl, hfirst⟩ := ihLeft (hleft.trans hnumber)
      obtain ⟨rfl, hsecond⟩ := ihRight (hright.trans hnumber)
      rw [visits_two hnode rfl hleft hright, evaluate_and hnode hleft hright]
      exact ⟨rfl, outcome_two hfirst hsecond⟩
  | or hnode _ _ ihLeft ihRight =>
      obtain ⟨hleft, hright⟩ := h.lt_two hnode rfl
      obtain ⟨rfl, hfirst⟩ := ihLeft (hleft.trans hnumber)
      obtain ⟨rfl, hsecond⟩ := ihRight (hright.trans hnumber)
      rw [visits_two hnode rfl hleft hright, evaluate_or hnode hleft hright]
      exact ⟨rfl, outcome_two hfirst hsecond⟩
  | not hnode _ ih =>
      have hoperand := h.lt_one hnode rfl
      obtain ⟨rfl, hfirst⟩ := ih (hoperand.trans hnumber)
      rw [visits_one hnode rfl hoperand, evaluate_not hnode hoperand]
      exact ⟨rfl, outcome_one hfirst⟩
  | signal hnode =>
      rw [visits_leaf hnode rfl, evaluate_signal hnode]
      exact ⟨rfl, rfl⟩
  | literal hnode =>
      rw [visits_leaf hnode rfl, evaluate_literal hnode]
      exact ⟨rfl, rfl⟩
  | missing hnode =>
      obtain ⟨node, hsome⟩ := lt_size_iff.1 hnumber
      rw [hnode] at hsome
      cases hsome

theorem evaluates_iff {visited : List Nat} {outcome : Bool × σ}
    (h : store.NamesEarlier 0 store.size) (hnumber : number < store.size) :
    store.Evaluates table number state visited outcome ↔
      visited = store.visits number ∧ outcome = store.evaluate table number state := by
  constructor
  · exact fun hevaluates => hevaluates.eq h hnumber
  · rintro ⟨rfl, rfl⟩
    exact evaluates_visits h hnumber

end

end NodeStore

/-! ### The layout of a phrase -/

section

variable {start m n : Nat}

/-- A stretch of numbers from its two parts and the number behind them. -/
theorem perm_range'_pair {a b : List Nat} (ha : a.Perm (List.range' start m))
    (hb : b.Perm (List.range' (start + m) n)) :
    (a ++ b ++ [start + (m + n)]).Perm (List.range' start (m + n + 1)) := by
  rw [List.range'_1_concat, ← List.range'_append_1]
  exact (ha.append hb).append_right _

/-- A node behind two parts names the roots of both, in either order. -/
theorem operands_perm_pair {a b : List Node} {node : Node} {x y : Nat}
    (ha : (a.flatMap Node.operands ++ [x]).Perm (List.range' start m))
    (hb : (b.flatMap Node.operands ++ [y]).Perm (List.range' (start + m) n))
    (hnode : node.operands.Perm [x, y]) :
    ((a ++ b ++ [node]).flatMap Node.operands ++ [start + (m + n)]).Perm
      (List.range' start (m + n + 1)) := by
  refine .trans (.append_right _ ?_) (perm_range'_pair ha hb)
  rw [List.perm_iff_count]
  intro number
  have hcount := hnode.count_eq number
  simp only [List.flatMap_append, List.flatMap_singleton, List.count_append, List.count_cons,
    List.count_nil] at hcount ⊢
  omega

end

namespace Phrase

variable {k : Category} {start : Nat} {store : NodeStore}

/-- In the layout of a phrase every number is named once, but for the root. -/
theorem operands_perm (p : Phrase k) (start : Nat) :
    ((p.nodesAt start).flatMap Node.operands ++ [p.rootAt start]).Perm
      (List.range' start p.size) := by
  induction p generalizing start with
  | expression first others ihFirst ihOthers | chain first others ihFirst ihOthers =>
      rw [rootAt_of_size rfl]
      exact operands_perm_pair (ihFirst start) (ihOthers _) (.refl _)
  | and next others ihNext ihOthers | or next others ihNext ihOthers =>
      rw [rootAt_of_size rfl]
      exact operands_perm_pair (ihNext start) (ihOthers _) (.swap ..)
  | not operand ih =>
      rw [rootAt_of_size rfl, size, List.range'_1_concat]
      refine .append_right _ ?_
      simpa [nodesAt, Node.operands] using ih start
  | group inner ih => exact ih start
  | endOfExpression | endOfChain | signal s | truth b => exact .refl _

/-- A node names roots of parts that are laid out before it. -/
theorem namesEarlier (p : Phrase k) (h : store.Holds start (p.nodesAt start)) :
    store.NamesEarlier start (start + p.size) := by
  induction p generalizing start with
  | expression first others ihFirst ihOthers | chain first others ihFirst ihOthers =>
      obtain ⟨hfirst, hothers, hnode, hlt, hlt'⟩ := holds_pair h
      have hparts := (ihFirst hfirst).append (ihOthers hothers)
      rw [Nat.add_assoc] at hparts
      exact hparts.concat hnode (by simp [Node.operands, hlt, hlt'])
  | and next others ihNext ihOthers | or next others ihNext ihOthers =>
      obtain ⟨hnext, hothers, hnode, hlt, hlt'⟩ := holds_pair h
      have hparts := (ihNext hnext).append (ihOthers hothers)
      rw [Nat.add_assoc] at hparts
      exact hparts.concat hnode (by simp [Node.operands, hlt, hlt'])
  | not operand ih =>
      obtain ⟨hnode, hlt⟩ := holds_not h
      exact (ih h.front).concat hnode (by simp [Node.operands, hlt])
  | group inner ih => exact ih h
  | endOfExpression | endOfChain | signal s | truth b =>
      exact .concat .empty h.get? (by simp [Node.operands])

/-- Through the operands, evaluation comes to every number of the layout once. -/
theorem visits_perm (p : Phrase k) (h : store.Holds start (p.nodesAt start)) :
    (store.visits (p.rootAt start)).Perm (List.range' start p.size) := by
  induction p generalizing start with
  | expression first others ihFirst ihOthers | chain first others ihFirst ihOthers =>
      obtain ⟨hfirst, hothers, hnode, hlt, hlt'⟩ := holds_pair h
      rw [rootAt_of_size rfl, NodeStore.visits_two hnode rfl hlt hlt']
      exact (List.perm_append_singleton ..).symm.trans
        (perm_range'_pair (ihFirst hfirst) (ihOthers hothers))
  | and next others ihNext ihOthers | or next others ihNext ihOthers =>
      obtain ⟨hnext, hothers, hnode, hlt, hlt'⟩ := holds_pair h
      rw [rootAt_of_size rfl, NodeStore.visits_two hnode rfl hlt' hlt]
      exact (List.perm_append_comm.cons _).trans ((List.perm_append_singleton ..).symm.trans
        (perm_range'_pair (ihNext hnext) (ihOthers hothers)))
  | not operand ih =>
      obtain ⟨hnode, hlt⟩ := holds_not h
      rw [rootAt_of_size rfl, NodeStore.visits_one hnode rfl hlt, size, List.range'_1_concat]
      exact (List.perm_append_singleton ..).symm.trans ((ih h.front).append_right _)
  | group inner ih => exact ih h
  | endOfExpression | endOfChain | signal s | truth b =>
      rw [rootAt_of_size rfl]
      exact .of_eq (NodeStore.visits_leaf h.get? rfl)

end Phrase

/-! ### Trees -/

namespace NodeStore

variable {store : NodeStore} {root number number' place place' operand : Nat}

theorem exists_names (h : operand ∈ store.nodes.flatMap Node.operands) :
    ∃ number place, store.Names number place operand := by
  obtain ⟨node, hnode, hoperand⟩ := List.mem_flatMap.1 h
  obtain ⟨number, hnumber⟩ := List.mem_iff_getElem?.1 hnode
  obtain ⟨place, hplace⟩ := List.mem_iff_getElem?.1 hoperand
  exact ⟨number, place, node, hnumber, hplace⟩

/-- Nothing is named by two nodes if all that is named is named once. -/
theorem Names.not_lt (hnodup : (store.nodes.flatMap Node.operands).Nodup)
    (h : store.Names number place operand) (h' : store.Names number' place' operand) :
    ¬number < number' := by
  intro hlt
  obtain ⟨node, hnode, hplace⟩ := h
  obtain ⟨node', hnode', hplace'⟩ := h'
  obtain ⟨hnumber, rfl⟩ := List.getElem?_eq_some_iff.1 hnode
  obtain ⟨hnumber', rfl⟩ := List.getElem?_eq_some_iff.1 hnode'
  have hapart := List.pairwise_iff_getElem.1 (List.nodup_flatMap.1 hnodup).2
  exact hapart _ _ hnumber hnumber' hlt (List.mem_of_getElem? hplace) (List.mem_of_getElem? hplace')

theorem Names.eq (hnodup : (store.nodes.flatMap Node.operands).Nodup)
    (h : store.Names number place operand) (h' : store.Names number' place' operand) :
    number = number' ∧ place = place' := by
  obtain rfl : number = number' :=
    Nat.le_antisymm (Nat.not_lt.1 (h'.not_lt hnodup h)) (Nat.not_lt.1 (h.not_lt hnodup h'))
  obtain ⟨node, hnode, hplace⟩ := h
  obtain ⟨node', hnode', hplace'⟩ := h'
  obtain rfl := Option.some.inj (hnode.symm.trans hnode')
  have hoperands := (List.nodup_flatMap.1 hnodup).1 node (List.mem_of_getElem? hnode)
  obtain ⟨hlt, -⟩ := List.getElem?_eq_some_iff.1 hplace
  exact ⟨rfl, (List.getElem?_inj hlt hoperands).1 (hplace.trans hplace'.symm)⟩

theorem NamesEarlier.of_names (h : store.NamesEarlier 0 store.size)
    (hnames : store.Names number place operand) : operand < number := by
  obtain ⟨node, hnode, hplace⟩ := hnames
  exact h.lt hnode (List.mem_of_getElem? hplace)

/-- From any number one comes to the root by going from what is named to what names it. -/
theorem reaches_iff (h : store.NamesEarlier 0 store.size) (hroot : root + 1 = store.size)
    (hnamed : ∀ operand < root, ∃ number place, store.Names number place operand) :
    store.Reaches root number ↔ number < store.size := by
  constructor
  · intro hreaches
    induction hreaches with
    | refl => omega
    | tail _ hnames hlt =>
        obtain ⟨place, hnames⟩ := hnames
        exact (h.of_names hnames).trans hlt
  · intro hnumber
    induction hleft : root - number using Nat.strongRecOn generalizing number with
    | ind left ih =>
        obtain rfl | hlt := Nat.eq_or_lt_of_le (show number ≤ root by omega)
        · exact .refl
        · obtain ⟨parent, place, hnames⟩ := hnamed number hlt
          have hlater := h.of_names hnames
          obtain ⟨node, hnode, -⟩ := id hnames
          have hparent := lt_size_iff.2 ⟨node, hnode⟩
          exact .tail (ih _ (by omega) hparent rfl) ⟨place, hnames⟩

end NodeStore

namespace Expression

/-- The nodes of an expression are a tree that takes up the store, with the root behind the other
nodes. -/
structure IsTree (e : Expression) : Prop where
  root : e.root + 1 = e.nodes.size
  earlier : ∀ number place operand, e.nodes.Names number place operand → operand < number
  named : ∀ operand < e.root, ∃! spot : Nat × Nat, e.nodes.Names spot.1 spot.2 operand
  unnamed : ∀ number place, ¬e.nodes.Names number place e.root
  reached : ∀ number, e.nodes.Reaches e.root number ↔ number < e.nodes.size

theorem root_ofPhrase (p : Phrase .expression) :
    (ofPhrase p).root + 1 = (ofPhrase p).nodes.size := by
  have hpos := p.size_pos
  rw [size_ofPhrase]
  show 0 + p.size - 1 + 1 = p.size
  omega

theorem namesEarlier_ofPhrase (p : Phrase .expression) :
    (ofPhrase p).nodes.NamesEarlier 0 (ofPhrase p).nodes.size := by
  have hearlier := p.namesEarlier (holds_ofPhrase p)
  rwa [Nat.zero_add, ← size_ofPhrase] at hearlier

theorem operands_perm_ofPhrase (p : Phrase .expression) :
    ((ofPhrase p).nodes.nodes.flatMap Node.operands ++ [(ofPhrase p).root]).Perm
      (List.range (ofPhrase p).nodes.size) := by
  rw [size_ofPhrase, List.range_eq_range']
  exact p.operands_perm 0

theorem visits_perm_ofPhrase (p : Phrase .expression) :
    ((ofPhrase p).nodes.visits (ofPhrase p).root).Perm (List.range (ofPhrase p).nodes.size) := by
  rw [size_ofPhrase, List.range_eq_range']
  exact p.visits_perm (holds_ofPhrase p)

theorem isTree_ofPhrase (p : Phrase .expression) : (ofPhrase p).IsTree := by
  have hroot := root_ofPhrase p
  have hearlier := namesEarlier_ofPhrase p
  have hperm := operands_perm_ofPhrase p
  have hnodup := (hperm.nodup_iff.2 List.nodup_range).of_append_left
  have hnamed : ∀ operand < (ofPhrase p).root,
      ∃ number place, (ofPhrase p).nodes.Names number place operand := by
    intro operand hlt
    have hmem := hperm.mem_iff.2 (List.mem_range.2 (show operand < _ by omega))
    rcases List.mem_append.1 hmem with hmem | hmem
    · exact NodeStore.exists_names hmem
    · exact absurd (List.mem_singleton.1 hmem) (Nat.ne_of_lt hlt)
  refine ⟨hroot, fun number place operand => hearlier.of_names, ?_, ?_, ?_⟩
  · intro operand hlt
    obtain ⟨number, place, hnames⟩ := hnamed operand hlt
    refine ⟨(number, place), hnames, fun spot hspot => ?_⟩
    obtain ⟨hnumber, hplace⟩ := hspot.eq hnodup hnames
    exact Prod.ext hnumber hplace
  · intro number place hnames
    have hlater := hearlier.of_names hnames
    obtain ⟨node, hnode, -⟩ := hnames
    have hlt := NodeStore.lt_size_iff.2 ⟨node, hnode⟩
    omega
  · exact fun number => NodeStore.reaches_iff hearlier hroot hnamed

/-- The nodes of an accepted text are a tree. Evaluation that just follows the operands ends: it
comes to every node once, in an order that does not depend on the signals, and to no number without
a node. -/
theorem parse_gives_tree {text : String} {e : Expression} (h : parse text = .ok e) :
    e.IsTree ∧ ∃ visited : List Nat, visited.Perm (List.range e.nodes.size) ∧
      (∀ number ∈ visited, ∃ node, e.nodes.get? number = some node) ∧
      ∀ (σ : Type) (table : Signal → StateM σ Bool) (state : σ) (order : List Nat)
        (outcome : Bool × σ), e.nodes.Evaluates table e.root state order outcome ↔
          order = visited ∧ outcome = e.evaluateM table state := by
  obtain ⟨p, rfl, -, -⟩ := exists_phrase_of_parse h
  have hvisits := visits_perm_ofPhrase p
  have hroot : (ofPhrase p).root < (ofPhrase p).nodes.size := Nat.lt_of_succ_le (root_ofPhrase p).le
  refine ⟨isTree_ofPhrase p, _, hvisits, ?_, ?_⟩
  · intro number hnumber
    exact NodeStore.lt_size_iff.1 (List.mem_range.1 (hvisits.mem_iff.1 hnumber))
  · intro σ table state order outcome
    exact NodeStore.evaluates_iff (namesEarlier_ofPhrase p) hroot

/-- Eight nodes, the root behind the others. The node behind `T` names its parts, the second one of
which is the end of the chain, the other way round. -/
theorem parse_gives_tree_joined :
    ∃ e, parse "!0|T" = .ok e ∧ e.IsTree ∧
      [7, 5, 1, 0, 4, 3, 2, 6].Perm (List.range e.nodes.size) ∧
      ∀ (σ : Type) (table : Signal → StateM σ Bool) (state : σ) (order : List Nat)
        (outcome : Bool × σ), e.nodes.Evaluates table e.root state order outcome ↔
          order = [7, 5, 1, 0, 4, 3, 2, 6] ∧ outcome = e.evaluateM table state := by
  have h : parse "!0|T" = .ok (ofPhrase (.expression
      (.chain (.not (.signal 0)) (.or (.truth true) .endOfChain)) .endOfExpression)) := by
    cbv
  obtain ⟨htree, visited, hperm, -, hevaluates⟩ := parse_gives_tree h
  have hvisited := (hevaluates Unit (fun _ => pure true) () _ _).1
    (.and rfl (.or rfl (.not rfl (.signal rfl)) (.or rfl (.literal rfl) (.literal rfl)))
      (.literal rfl))
  rw [← hvisited.1] at hperm hevaluates
  exact ⟨_, h, htree, hperm, hevaluates⟩

end Expression

end TimeSwitch.Formula
