import TimeSwitch.Proofs.Formula.Parsing

/-!
Which signals an evaluation calls, and in which order. Every signal is called as often as the text
names it, and of joined parts the first one calls first and then the others from the last one back.
Neither depends on the values that the calls give, even if these change from call to call.
-/

namespace TimeSwitch.Formula

def Token.signal? : Token → Option Signal
  | signal s => some s
  | _ => none

/-- The signals that the tokens name, each as often as it is named. -/
def signalsAmong (tokens : List Token) : List Signal :=
  tokens.filterMap Token.signal?

theorem signalsAmong_nil : signalsAmong [] = [] := rfl

theorem signalsAmong_append (a b : List Token) :
    signalsAmong (a ++ b) = signalsAmong a ++ signalsAmong b :=
  List.filterMap_append

theorem signalsAmong_cons_of_none {token : Token} (h : token.signal? = none)
    (tokens : List Token) : signalsAmong (token :: tokens) = signalsAmong tokens :=
  List.filterMap_cons_none h

namespace Phrase

/-- A phrase calls the signals that it names, in an order of its own. -/
theorem calls_perm (p : Phrase k) : p.calls.Perm (signalsAmong p.tokens) := by
  induction p with
  | expression first others ihFirst ihOthers | chain first others ihFirst ihOthers =>
      rw [calls, tokens, signalsAmong_append]
      exact ihFirst.append ihOthers
  | and next others ihNext ihOthers | or next others ihNext ihOthers =>
      rw [calls, tokens, signalsAmong_cons_of_none rfl, signalsAmong_append]
      exact List.perm_append_comm.trans (ihNext.append ihOthers)
  | not operand ih => exact ih
  | group inner ih =>
      rw [calls, tokens, signalsAmong_cons_of_none rfl, signalsAmong_append,
        signalsAmong_cons_of_none rfl, signalsAmong_nil, List.append_nil]
      exact ih
  | endOfExpression | endOfChain | signal | truth => exact .refl _

/-- The calls can be read off any record to which each call adds its signal. -/
theorem record_run {σ : Type} {call : Signal → StateM σ Bool} (p : Phrase k)
    (record : σ → List Signal)
    (hcall : ∀ s state, record (call s state).2 = record state ++ [s]) (state : σ) :
    record (p.run call state).2 = record state ++ p.calls := by
  induction p generalizing state with
  | expression first others ihFirst ihOthers | chain first others ihFirst ihOthers =>
      show record (others.run call (first.run call state).2).2 = _
      rw [ihOthers, ihFirst, calls, List.append_assoc]
  | and next others ihNext ihOthers | or next others ihNext ihOthers =>
      show record (next.run call (others.run call state).2).2 = _
      rw [ihNext, ihOthers, calls, List.append_assoc]
  | not operand ih => exact ih state
  | group inner ih => exact ih state
  | signal s => exact hcall s state
  | endOfExpression | endOfChain | truth => exact (List.append_nil _).symm

end Phrase

namespace Expression

/-- Reads a signal, whose value may depend on what has been called before, and adds it to the
signals called so far. -/
def recorded {σ : Type} (table : Signal → StateM σ Bool) (s : Signal) :
    StateM (σ × List Signal) Bool :=
  fun (state, calls) => ((table s state).1, (table s state).2, calls ++ [s])

/-- One evaluation of an accepted text calls the signals that the text names, each as often as it is
named, and calls them in the order of the sentence that the text spells, whatever values the calls
give. -/
theorem evaluation_calls_in_order {text : String} {e : Expression} (h : parse text = .ok e) :
    (∃ s, IsSentence text s) ∧ ∀ s, IsSentence text s →
      s.calls.Perm (signalsAmong s.tokens) ∧
      (∀ value, (e.evaluateTraced value).2 = s.calls) ∧
      ∀ (σ : Type) (table : Signal → StateM σ Bool) (state : σ),
        (e.evaluateM (recorded table) (state, [])).2.2 = s.calls := by
  obtain ⟨p, rfl, hsize, hfinds⟩ := exists_phrase_of_parse h
  refine ⟨⟨p.sentence, isSentence_iff.2 ⟨p, rfl, hfinds⟩⟩, fun s hs => ?_⟩
  obtain ⟨q, rfl, hfinds'⟩ := isSentence_iff.1 hs
  have hsame : ofPhrase p = ofPhrase q := by
    rw [parse_of_finds hfinds'] at h
    split at h
    · exact (Except.ok.inj h).symm
    · cases h
  refine ⟨q.calls_perm, fun value => ?_, fun σ table state => ?_⟩
  · rw [hsame, evaluateTraced, evaluateM_ofPhrase]
    exact q.record_run id (fun _ _ => rfl) []
  · rw [hsame, evaluateM_ofPhrase]
    exact q.record_run Prod.snd (fun _ _ => rfl) (state, [])

/-- The four parts of a conjunction call from the last one back, after the first one, and so do the
three parts of a disjunction inside it. The signal 0 is named and called twice. -/
theorem evaluation_calls_in_order_mixed :
    ∃ e, parse "0&1&(2|3|4)&!0" = .ok e ∧
      (∃ s, IsSentence "0&1&(2|3|4)&!0" s) ∧
      ∀ s, IsSentence "0&1&(2|3|4)&!0" s →
        s.calls = [0, 0, 2, 4, 3, 1] ∧ s.calls.Perm (signalsAmong s.tokens) ∧
        ∀ value, (e.evaluateTraced value).2 = [0, 0, 2, 4, 3, 1] := by
  have h : parse "0&1&(2|3|4)&!0" = .ok (ofPhrase (.expression (.chain (.signal 0) .endOfChain)
      (.and (.chain (.signal 1) .endOfChain)
        (.and (.chain (.group (.expression
            (.chain (.signal 2) (.or (.signal 3) (.or (.signal 4) .endOfChain)))
            .endOfExpression)) .endOfChain)
          (.and (.chain (.not (.signal 0)) .endOfChain) .endOfExpression))))) := by
    cbv
  obtain ⟨hsome, hcalls⟩ := evaluation_calls_in_order h
  refine ⟨_, h, hsome, fun s hs => ?_⟩
  obtain ⟨hperm, htraced, -⟩ := hcalls s hs
  have horder : s.calls = [0, 0, 2, 4, 3, 1] := by
    rw [← htraced fun _ => false]
    cbv
  exact ⟨horder, hperm, fun value => (htraced value).trans horder⟩

end Expression

end TimeSwitch.Formula
