import TimeSwitch.Formula.Session
import TimeSwitch.Proofs.Formula.Reading

/-!
Storing nodes while reading comes to what reading comes to. Where a phrase is read, its layout is
what has been stored behind the nodes that were there, and a fault is the same fault
(`stores_read`).
-/

namespace TimeSwitch.Formula

open Sequence

namespace NodeStore

/-- The store with nodes added behind those that it has. -/
def extend (store : NodeStore) (nodes : List Node) : NodeStore :=
  ⟨store.nodes ++ nodes⟩

variable {store : NodeStore} {nodes : List Node} {node : Node}

@[simp] theorem size_extend : (store.extend nodes).size = store.size + nodes.length :=
  List.length_append

theorem extend_nil (store : NodeStore) : store.extend [] = store := by
  rw [extend, List.append_nil]

theorem extend_extend (store : NodeStore) (a b : List Node) :
    (store.extend a).extend b = store.extend (a ++ b) := by
  rw [extend, extend, extend, List.append_assoc]

theorem add_of_lt (h : store.size < nodeLimit) :
    store.add node = .ok (store.size, store.extend [node]) :=
  if_pos h

theorem add_of_le (h : nodeLimit ≤ store.size) : store.add node = .error .tooManyNodes :=
  if_neg (Nat.not_lt.2 h)

end NodeStore

namespace Building

/-- Stores a phrase of the given category. -/
def build : (k : Category) → (levels : Nat) → Building Nat
  | .expression => expression
  | .moreChains => moreChains
  | .chain => chain
  | .moreFactors => moreFactors
  | .factor => factor

/-- What storing comes to, behind the nodes of a store, where reading comes to the given result. -/
inductive Stores (store : NodeStore) :
    Except Fault (Read k) → EStateM.Result Fault Workbench Nat → Prop
  | stored {r : Read k} (hused : r.used = store.size + r.phrase.size) :
      Stores store (.ok r)
        (.ok (r.phrase.rootAt store.size) ⟨r.scan, store.extend (r.phrase.nodesAt store.size)⟩)
  | failed {fault : Fault} {after : Workbench} : Stores store (.error fault) (.error fault after)

variable {k k₁ k₂ : Category} {store : NodeStore} {bench : Workbench}

/-! ### Steps -/

theorem stores_bind {readFirst : Except Fault (Read k₁)}
    {readNext : Read k₁ → Except Fault (Read k)} {first : Building Nat} {next : Nat → Building Nat}
    (hfirst : Stores store readFirst (first bench))
    (hnext : ∀ r : Read k₁, r.used = store.size + r.phrase.size →
      Stores store (readNext r) (next (r.phrase.rootAt store.size)
        ⟨r.scan, store.extend (r.phrase.nodesAt store.size)⟩)) :
    Stores store (readFirst >>= readNext) ((first >>= next) bench) := by
  show Stores store (readFirst >>= readNext) (EStateM.bind first next bench)
  unfold EStateM.bind
  generalize first bench = result at hfirst ⊢
  cases hfirst with
  | stored hused => exact hnext _ hused
  | failed => exact .failed

theorem stores_moveTo {rest : List Lexeme} {readNext : Scan → Except Fault (Read k)}
    {next : Building Nat}
    (hnext : ∀ scan, Stores bench.store (readNext scan) (next ⟨scan, bench.store⟩)) :
    Stores bench.store (bench.scan.moveTo rest >>= readNext)
      ((moveTo rest >>= fun _ => next) bench) := by
  show Stores bench.store _ (EStateM.bind (moveTo rest) (fun _ => next) bench)
  unfold EStateM.bind moveTo
  cases bench.scan.moveTo rest with
  | ok scan => exact hnext scan
  | error fault => exact .failed

/-- The node of a phrase, stored behind those of its parts. -/
theorem stores_node {p : Phrase k} {nodes : List Node} {node : Node} {scan : Scan} {used : Nat}
    (hlayout : p.nodesAt store.size = nodes ++ [node]) (hused : used = store.size + nodes.length) :
    Stores store (do let used ← takeNode used; return ⟨p, scan, used⟩)
      (add node ⟨scan, store.extend nodes⟩) := by
  have hsize : p.size = nodes.length + 1 := by
    rw [← p.length_nodesAt store.size, hlayout, List.length_append, List.length_singleton]
  have hroot : p.rootAt store.size = used := by
    rw [Phrase.rootAt, hsize, hused]
    rfl
  have hfull : (store.extend nodes).size = used := by rw [NodeStore.size_extend, hused]
  rw [add]
  by_cases hnode : used < nodeLimit
  · rw [Phrase.takeNode_of_lt hnode, NodeStore.add_of_lt (hfull ▸ hnode), hfull,
      NodeStore.extend_extend, ← hlayout, ← hroot]
    refine .stored ?_
    show p.rootAt store.size + 1 = store.size + p.size
    omega
  · have hfull := hfull.symm ▸ Nat.not_lt.1 hnode
    rw [Phrase.takeNode_of_le (Nat.not_lt.1 hnode), NodeStore.add_of_le hfull]
    exact .failed

theorem stores_leaf {p : Phrase k} {node : Node} {scan : Scan}
    (hlayout : p.nodesAt store.size = [node]) :
    Stores store (do let used ← takeNode store.size; return ⟨p, scan, used⟩)
      (add node ⟨scan, store⟩) := by
  have hnode := @stores_node _ store p [] node scan _ hlayout rfl
  rwa [NodeStore.extend_nil] at hnode

/-- Two parts stored one after the other, as `Phrase.outcome_pair` has them read. -/
theorem stores_pair {build : Phrase k₁ → Phrase k₂ → Phrase k} (node : Nat → Nat → Node)
    {readFirst : Except Fault (Read k₁)} {readSecond : Read k₁ → Except Fault (Read k₂)}
    {first second : Building Nat} {scan : Scan}
    (hlayout : ∀ p q start, (build p q).nodesAt start = p.nodesAt start ++
      q.nodesAt (start + p.size) ++ [node (p.rootAt start) (q.rootAt (start + p.size))])
    (hfirst : Stores store readFirst (first ⟨scan, store⟩))
    (hsecond : ∀ (r : Read k₁) (store : NodeStore), r.used = store.size →
      Stores store (readSecond r) (second ⟨r.scan, store⟩)) :
    Stores store
      (do
        let first ← readFirst
        let second ← readSecond first
        let used ← takeNode second.used
        return ⟨build first.phrase second.phrase, second.scan, used⟩)
      ((do
        let first ← first
        let second ← second
        add (node first second)) ⟨scan, store⟩) := by
  refine stores_bind hfirst fun r hr => ?_
  have hbetween : (store.extend (r.phrase.nodesAt store.size)).size =
      store.size + r.phrase.size := by
    rw [NodeStore.size_extend, Phrase.length_nodesAt]
  have hpart := hsecond r _ (hr.trans hbetween.symm)
  generalize readSecond r = result at hpart ⊢
  show Stores _ _ (EStateM.bind second _ _)
  unfold EStateM.bind
  generalize second _ = stored at hpart ⊢
  cases hpart with
  | failed => exact .failed
  | @stored s hs =>
      rw [hbetween] at hs ⊢
      rw [NodeStore.extend_extend]
      refine stores_node (hlayout r.phrase s.phrase store.size) ?_
      rw [hs, List.length_append, Phrase.length_nodesAt, Phrase.length_nodesAt, Nat.add_assoc]

/-- A group stores nothing of its own: what was stored for the expression in it is the layout of the
group as well. -/
theorem stores_close {r : Read .expression} (hused : r.used = store.size + r.phrase.size) :
    Stores store
      (match r.scan.lexemes with
      | ⟨.closeGroup, _, _⟩ :: rest => do
        let scan ← r.scan.moveTo rest
        return ⟨.group r.phrase, scan, r.used⟩
      | _ => .error r.scan.unclosedHere)
      ((do
        close
        return r.phrase.rootAt store.size)
        ⟨r.scan, store.extend (r.phrase.nodesAt store.size)⟩) := by
  show Stores store _ (EStateM.bind close _ _)
  obtain ⟨phrase, ⟨_ | ⟨⟨token, symbol, position⟩, rest⟩, ending⟩, used⟩ := r
  · exact .failed
  · cases token with
    | closeGroup =>
        unfold EStateM.bind close moveTo
        dsimp only
        generalize Scan.moveTo _ rest = moved
        cases moved with
        | ok scan => exact .stored hused
        | error fault => exact .failed
    | and | or | not | openGroup | signal | truth => exact .failed

/-! ### All readers -/

theorem stores_read {levels : Nat} (bench : Workbench) :
    Stores bench.store (Phrase.read k levels bench.scan bench.store.size)
      (build k levels bench) := by
  -- as in `took_of_read`, the levels carry the induction through all categories at once
  induction levels using Nat.strongRecOn generalizing k bench with
  | ind levels ih =>
      have hpart (k : Category) {less : Nat} (hless : less + 1 = levels) (scan : Scan)
          (store : NodeStore) {used : Nat} (hused : used = store.size) :
          Stores store (Phrase.read k less scan used) (build k less ⟨scan, store⟩) := by
        rw [hused]
        exact ih less (by omega) ⟨scan, store⟩
      cases k with
      | expression =>
          cases levels with
          | zero => exact .failed
          | succ levels =>
              exact stores_pair .and (fun _ _ _ => rfl)
                (hpart .chain rfl bench.scan bench.store rfl)
                fun r store => hpart .moreChains rfl r.scan store
      | moreChains =>
          rw [Phrase.read, Phrase.readMoreChains, build, moreChains]
          obtain ⟨⟨_ | ⟨⟨token, symbol, position⟩, rest⟩, ending⟩, store⟩ := bench
          · exact stores_leaf rfl
          · cases token with
            | and =>
                cases levels with
                | zero => exact .failed
                | succ levels =>
                    refine stores_moveTo fun scan => ?_
                    exact stores_pair (fun next others => .and others next) (fun _ _ _ => rfl)
                      (hpart .chain rfl scan store rfl)
                      fun r store => hpart .moreChains rfl r.scan store
            | or | not | openGroup | closeGroup | signal | truth => exact stores_leaf rfl
      | chain =>
          cases levels with
          | zero => exact .failed
          | succ levels =>
              exact stores_pair .or (fun _ _ _ => rfl)
                (hpart .factor rfl bench.scan bench.store rfl)
                fun r store => hpart .moreFactors rfl r.scan store
      | moreFactors =>
          rw [Phrase.read, Phrase.readMoreFactors, build, moreFactors]
          obtain ⟨⟨_ | ⟨⟨token, symbol, position⟩, rest⟩, ending⟩, store⟩ := bench
          · exact stores_leaf rfl
          · cases token with
            | or =>
                cases levels with
                | zero => exact .failed
                | succ levels =>
                    refine stores_moveTo fun scan => ?_
                    exact stores_pair (fun next others => .or others next) (fun _ _ _ => rfl)
                      (hpart .factor rfl scan store rfl)
                      fun r store => hpart .moreFactors rfl r.scan store
            | and | not | openGroup | closeGroup | signal | truth => exact stores_leaf rfl
      | factor =>
          rw [Phrase.read, Phrase.readFactor, build, factor]
          obtain ⟨⟨_ | ⟨⟨token, symbol, position⟩, rest⟩, ending⟩, store⟩ := bench
          · exact .failed
          · cases token with
            | openGroup =>
                cases levels with
                | zero => exact .failed
                | succ levels =>
                    refine stores_moveTo fun scan => ?_
                    exact stores_bind (hpart .expression rfl scan store rfl)
                      fun r hr => stores_close hr
            | not =>
                cases levels with
                | zero => exact .failed
                | succ levels =>
                    refine stores_moveTo fun scan => ?_
                    refine stores_bind (hpart .factor rfl scan store rfl) fun r hr => ?_
                    exact stores_node rfl (by rw [hr, Phrase.length_nodesAt])
            | signal s => exact stores_moveTo fun scan => stores_leaf rfl
            | truth value => exact stores_moveTo fun scan => stores_leaf rfl
            | and | or | closeGroup => exact .failed

/-- Storing a whole text comes to what parsing it comes to. -/
theorem run_eq (text : List Char) :
    ∃ after : Workbench, run text .empty = match Phrase.parse text with
      | .ok p => .ok (p.rootAt 0) { after with store := (Expression.ofPhrase p).nodes }
      | .error fault => .error fault after := by
  have hstores := @stores_read .expression nodeLimit ⟨(Cursor.start text).scan, .empty⟩
  simp only [run, whole, Phrase.parse, bind, EStateM.bind, ready]
  cases hready : (Cursor.start text).scan.ready with
  | error fault => exact ⟨_, rfl⟩
  | ok scan =>
      obtain rfl := Phrase.eq_of_ready hready
      simp only [Except.bind, build, Phrase.read] at hstores ⊢
      change Stores _ (Phrase.readExpression nodeLimit _ 0) _ at hstores
      generalize Phrase.readExpression nodeLimit _ 0 = result at hstores ⊢
      generalize expression nodeLimit _ = stored at hstores ⊢
      cases hstores with
      | failed => exact ⟨_, rfl⟩
      | @stored r hused =>
          obtain ⟨phrase, ⟨_ | ⟨l, rest⟩, ending⟩, used⟩ := r
          · exact ⟨⟨⟨[], ending⟩, .empty⟩, rfl⟩
          · exact ⟨_, rfl⟩

end Building

/-! ### Sessions -/

namespace Session

/-- A text is parsed as if it were the first one. -/
theorem parse_eq_start (session : Session) (text : String) :
    session.parse text = start.parse text := rfl

theorem parse_cases (session : Session) (text : String) :
    (∃ e, Expression.parse text = .ok e ∧
        session.parse text = ⟨e.nodes, some (.ok e.root), true, []⟩) ∨
      ∃ fault store, Expression.parse text = .error fault ∧
        session.parse text = ⟨store, some (.error fault), false, fault.pieces.foldl write []⟩ := by
  obtain ⟨after, hrun⟩ := Building.run_eq text.toList
  unfold parse
  dsimp only [clear]
  rw [hrun, Expression.parse]
  cases Phrase.parse text.toList with
  | ok p => exact .inl ⟨.ofPhrase p, rfl, rfl⟩
  | error fault => exact .inr ⟨fault, after.store, rfl, rfl⟩

theorem last_parse (session : Session) (text : String) :
    (session.parse text).last = some (Expression.parse text) := by
  obtain ⟨e, hparse, hsession⟩ | ⟨fault, store, hparse, hsession⟩ := session.parse_cases text
  · rw [hparse, hsession]
    rfl
  · rw [hparse, hsession]
    rfl

theorem succeeded_parse {session : Session} {text : String} :
    (session.parse text).succeeded = true ↔ ∃ e, Expression.parse text = .ok e := by
  obtain ⟨e, hparse, hsession⟩ | ⟨fault, store, hparse, hsession⟩ := session.parse_cases text
  · rw [hparse, hsession]
    exact ⟨fun _ => ⟨e, rfl⟩, fun _ => rfl⟩
  · rw [hparse, hsession]
    exact ⟨nofun, nofun⟩

@[simp] theorem evaluate_parse (session : Session) (text : String) (value : Signal → Bool) :
    (session.parse text).evaluate value = valueOf (some text) value := by
  rw [evaluate, expression?, last_parse, valueOf]
  cases Expression.parse text <;> rfl

end Session

end TimeSwitch.Formula
