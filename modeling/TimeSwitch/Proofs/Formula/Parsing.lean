import Mathlib
import TimeSwitch.Proofs.Formula.Evaluation
import TimeSwitch.Proofs.Formula.Grammar
import TimeSwitch.Proofs.Formula.Reading

/-!
Which texts are formulas, and what they mean. A text is accepted if it spells a sentence of the
grammar that needs no more nodes than there are, and then its value is the meaning of that
sentence.
-/

namespace TimeSwitch.Formula

/-- The text spells the sentence, and the sentence is an expression. -/
def IsSentence (text : String) (s : Sentence) : Prop :=
  Spells text.toList s.tokens ∧ Derives .expression s

theorem isSentence_iff {text : String} {s : Sentence} :
    IsSentence text s ↔ ∃ p : Phrase .expression,
      p.sentence = s ∧ (Cursor.start text.toList).scan.Finds p.tokens := by
  rw [IsSentence, spells_iff_finds, derives_expression_iff]
  constructor
  · rintro ⟨hfinds, p, rfl⟩
    exact ⟨p, rfl, hfinds⟩
  · rintro ⟨p, rfl, hfinds⟩
    exact ⟨hfinds, p, rfl⟩

namespace Expression

theorem parse_of_finds {text : String} {p : Phrase .expression}
    (h : (Cursor.start text.toList).scan.Finds p.tokens) :
    parse text = if p.size ≤ nodeLimit then .ok (ofPhrase p) else .error .tooManyNodes := by
  rw [parse, Phrase.parse_of_finds h]
  split <;> rfl

theorem exists_phrase_of_parse {text : String} {e : Expression} (h : parse text = .ok e) :
    ∃ p : Phrase .expression, ofPhrase p = e ∧ p.size ≤ nodeLimit ∧
      (Cursor.start text.toList).scan.Finds p.tokens := by
  cases hp : Phrase.parse text.toList with
  | error fault => simp [parse, hp, Functor.map, Except.map] at h
  | ok p =>
      have hfinds := Phrase.finds_of_parse hp
      have he := parse_of_finds hfinds
      rw [h] at he
      split at he
      · rename_i hsize
        exact ⟨p, (Except.ok.inj he).symm, hsize, hfinds⟩
      · cases he

/-- A text is accepted if and only if it spells a sentence that needs no more nodes than there
are. The nodes of the expression are then as many as the sentence needs, and a sentence that
needs more is refused for that and for nothing else. -/
theorem parse_accepts_sentences (text : String) :
    ((∃ e, parse text = .ok e) ↔ ∃ s, IsSentence text s ∧ s.need ≤ nodeLimit) ∧
      ∀ s, IsSentence text s →
        (s.need ≤ nodeLimit → ∃ e, parse text = .ok e ∧ e.nodes.size = s.need) ∧
        (nodeLimit < s.need → parse text = .error .tooManyNodes) := by
  refine ⟨⟨?_, ?_⟩, ?_⟩
  · rintro ⟨e, he⟩
    obtain ⟨p, -, hsize, hfinds⟩ := exists_phrase_of_parse he
    exact ⟨p.sentence, isSentence_iff.2 ⟨p, rfl, hfinds⟩, hsize⟩
  · rintro ⟨s, hs, hneed⟩
    obtain ⟨p, rfl, hfinds⟩ := isSentence_iff.1 hs
    exact ⟨ofPhrase p, (parse_of_finds hfinds).trans (if_pos hneed)⟩
  · intro s hs
    obtain ⟨p, rfl, hfinds⟩ := isSentence_iff.1 hs
    rw [parse_of_finds hfinds]
    constructor
    · intro hneed
      exact ⟨ofPhrase p, if_pos hneed, size_ofPhrase p⟩
    · intro hneed
      exact if_neg (Nat.not_le.2 hneed)

/-- The value of an accepted text is the meaning of the sentence that it spells. -/
theorem evaluate_eq_meaning {text : String} {e : Expression} (h : parse text = .ok e)
    (value : Signal → Bool) :
    (∃ s, IsSentence text s) ∧ ∀ s, IsSentence text s → e.evaluate value = s.meaning value := by
  constructor
  · obtain ⟨p, -, -, hfinds⟩ := exists_phrase_of_parse h
    exact ⟨p.sentence, isSentence_iff.2 ⟨p, rfl, hfinds⟩⟩
  · intro s hs
    obtain ⟨p, rfl, hfinds⟩ := isSentence_iff.1 hs
    rw [parse_of_finds hfinds] at h
    split at h
    · obtain rfl := Except.ok.inj h
      exact evaluate_ofPhrase p value
    · cases h

/-- `|` binds closer than `&`, and `!` reaches no further than the next factor. -/
theorem evaluate_eq_meaning_mixed :
    ∃ e, parse "1&!0 | (2|F)" = .ok e ∧ e.evaluate (fun s => s == 1) = true ∧
      (∃ s, IsSentence "1&!0 | (2|F)" s) ∧
      ∀ s, IsSentence "1&!0 | (2|F)" s →
        e.evaluate (fun s => s == 1) = s.meaning (fun s => s == 1) := by
  have h : parse "1&!0 | (2|F)" = .ok (ofPhrase (.expression (.chain (.signal 1) .endOfChain)
      (.and (.chain (.not (.signal 0)) (.or (.group (.expression
        (.chain (.signal 2) (.or (.truth false) .endOfChain)) .endOfExpression)) .endOfChain))
        .endOfExpression))) := by
    cbv
  exact ⟨_, h, by cbv, evaluate_eq_meaning h _⟩

end Expression

/-! ### Texts that may be missing -/

/-- The level that a text asks for: the meaning of the sentence that it spells, and low if there is
no text or no sentence that fits. -/
structure Asks (value : Signal → Bool) (text : Option String) (level : Bool) : Prop where
  missing : text = none → level = false
  spelled : ∀ t, text = some t → ∀ s, IsSentence t s → s.need ≤ nodeLimit →
    level = s.meaning value
  refused : ∀ t, text = some t → (∀ s, IsSentence t s → nodeLimit < s.need) → level = false

theorem asks_valueOf (value : Signal → Bool) (text : Option String) :
    Asks value text (valueOf text value) := by
  cases text with
  | none => exact ⟨fun _ => rfl, nofun, nofun⟩
  | some text =>
      refine ⟨nofun, ?_, ?_⟩
      · rintro _ ⟨⟩ s hs hneed
        obtain ⟨p, rfl, hfinds⟩ := isSentence_iff.1 hs
        have hparse : Expression.parse text = .ok (.ofPhrase p) :=
          (Expression.parse_of_finds hfinds).trans (if_pos hneed)
        simp only [valueOf, hparse]
        exact Expression.evaluate_ofPhrase p value
      · rintro _ ⟨⟩ hnone
        rw [valueOf]
        cases hparse : Expression.parse text with
        | error fault => rfl
        | ok e =>
            obtain ⟨p, -, hsize, hfinds⟩ := Expression.exists_phrase_of_parse hparse
            have hlarge := hnone p.sentence (isSentence_iff.2 ⟨p, rfl, hfinds⟩)
            exact absurd hsize (Nat.not_le.2 hlarge)

end TimeSwitch.Formula
