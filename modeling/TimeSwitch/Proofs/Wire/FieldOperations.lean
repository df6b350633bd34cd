import Mathlib.Algebra.GroupWithZero.Nat
import Mathlib.Tactic.SplitIfs
import TimeSwitch.Proofs.Sequence
import TimeSwitch.Wire.Fields

/-!
Where a reader stands after any operations on a body, failed ones included. Every operation stays
where it is or passes octets that are there (`exists_act_eq_advance`), so what is left is always the
octets from the position on. A field of fixed width is entered if and only if it is there in full;
once entered it is passed, also when it is refused for its contents (`field_width`).
-/

namespace TimeSwitch.Wire

open Sequence

/-- The body with `n` octets more passed. -/
def Body.advance (body : Body) (n : Nat) : Body := ⟨body.rest.drop n, body.position + n⟩

@[simp] theorem Body.rest_advance (body : Body) (n : Nat) :
    (body.advance n).rest = body.rest.drop n := rfl

@[simp] theorem Body.position_advance (body : Body) (n : Nat) :
    (body.advance n).position = body.position + n := rfl

/-- The body stands in the octets: its position is in them, and what is left is the rest of them. -/
structure Body.StandsIn (body : Body) (octets : Octets) : Prop where
  position : body.position ≤ octets.length
  rest : body.rest = octets.drop body.position

namespace Body.StandsIn

variable {octets : Octets} {body : Body}

theorem start (octets : Octets) : (Body.start octets).StandsIn octets :=
  ⟨Nat.zero_le _, rfl⟩

theorem length_rest (h : body.StandsIn octets) :
    body.rest.length = octets.length - body.position := by
  rw [h.rest, List.length_drop]

theorem advance (h : body.StandsIn octets) {n : Nat} (hn : n ≤ body.rest.length) :
    (body.advance n).StandsIn octets where
  position := by
    have hposition := h.position
    have hlength := h.length_rest
    simp only [Body.position_advance]
    omega
  rest := by rw [Body.rest_advance, Body.position_advance, h.rest, List.drop_drop]

end Body.StandsIn

namespace Reader

variable {α : Type} {body : Body}

/-! ### Octets one by one -/

theorem take_eq (n : Nat) (body : Body) : take n body =
    if n ≤ body.rest.length then .ok (body.rest.take n) (body.advance n)
    else .error .format body := rfl

theorem accept_eq (b : UInt8) (body : Body) : accept b body =
    if body.rest.head? = some b then .ok true (body.advance 1) else .ok false body := by
  obtain ⟨_ | ⟨next, rest⟩, position⟩ := body
  · rfl
  · simp [accept, Body.advance]

theorem expect_eq (b : UInt8) (body : Body) : expect b body =
    if body.rest.head? = some b then .ok () (body.advance 1) else .error .format body := by
  simp only [expect, bind, EStateM.bind, accept_eq]
  split_ifs with hnext
  · rfl
  · rfl

theorem finish_eq (body : Body) : finish body =
    if body.rest = [] then .ok () body else .error .format body := by
  simp only [finish, List.isEmpty_iff]

/-! ### Fields of fixed width -/

/-- The reader stays where it is, whatever comes of it. -/
def Stays (r : Reader α) : Prop :=
  ∀ body, stateOf (r body) = body

theorem stays_lift (value : Except DecodeFault α) : Stays (lift value) := by
  intro body
  cases value <;> rfl

theorem stays_pure (a : α) : Stays (pure a : Reader α) := fun _ => rfl

theorem stays_throw (fault : DecodeFault) : Stays (throw fault : Reader α) := fun _ => rfl

/-- A field is taken as a whole and then judged on the spot. -/
theorem field_width {judge : Octets → Reader α} (hjudge : ∀ octets, Stays (judge octets))
    (width : Nat) (body : Body) :
    (body.rest.length < width → (take width >>= judge) body = .error .format body) ∧
      (width ≤ body.rest.length → stateOf ((take width >>= judge) body) = body.advance width) := by
  simp only [bind, EStateM.bind, take_eq]
  constructor
  · intro hshort
    rw [if_neg (Nat.not_le.2 hshort)]
  · intro hthere
    rw [if_pos hthere]
    exact hjudge _ _

theorem digit_width (low high : Nat) (body : Body) :
    (body.rest.length < 1 → digit low high body = .error .format body) ∧
      (1 ≤ body.rest.length → stateOf (digit low high body) = body.advance 1) := by
  refine field_width (fun octets => ?_) 1 body
  split
  · exact stays_lift _
  · exact stays_throw _

theorem twoDigits_width (low high : Nat) (body : Body) :
    (body.rest.length < 2 → twoDigits low high body = .error .format body) ∧
      (2 ≤ body.rest.length → stateOf (twoDigits low high body) = body.advance 2) := by
  refine field_width (fun octets => ?_) 2 body
  split
  · exact stays_lift _
  · exact stays_throw _

theorem weekday_width (body : Body) :
    (body.rest.length < 3 → weekday body = .error .format body) ∧
      (3 ≤ body.rest.length → stateOf (weekday body) = body.advance 3) := by
  refine field_width (fun octets => ?_) 3 body
  split
  · exact stays_pure _
  · exact stays_throw _

end Reader

/-! ### Any operations -/

/-- What may be done with a body. -/
inductive FieldOperation
  | take (n : Nat)
  | expect (b : UInt8)
  | accept (b : UInt8)
  | digit (low high : Nat)
  | twoDigits (low high : Nat)
  | weekday
  | peek
  | rest
  | finish
  deriving DecidableEq, Repr

namespace FieldOperation

/-- The body that an operation leaves, whether it succeeds or fails. -/
def act : FieldOperation → Body → Body
  | take n, body => stateOf (Reader.take n body)
  | expect b, body => stateOf (Reader.expect b body)
  | accept b, body => stateOf (Reader.accept b body)
  | digit low high, body => stateOf (Reader.digit low high body)
  | twoDigits low high, body => stateOf (Reader.twoDigits low high body)
  | weekday, body => stateOf (Reader.weekday body)
  | peek, body => stateOf (Reader.peek body)
  | rest, body => stateOf (Reader.rest body)
  | finish, body => stateOf (Reader.finish body)

/-- The body that operations leave one after the other. -/
def run (operations : List FieldOperation) (body : Body) : Body :=
  operations.foldl (fun body operation => operation.act body) body

/-- Fields of fixed width are passed or not entered. -/
theorem exists_eq_advance {α : Type} {width : Nat} {body : Body}
    {result : EStateM.Result DecodeFault Body α}
    (h : (body.rest.length < width → result = .error .format body) ∧
      (width ≤ body.rest.length → stateOf result = body.advance width)) :
    ∃ n ≤ body.rest.length, stateOf result = body.advance n := by
  rcases Nat.lt_or_ge body.rest.length width with hshort | hthere
  · exact ⟨0, Nat.zero_le _, by rw [h.1 hshort]; rfl⟩
  · exact ⟨width, hthere, h.2 hthere⟩

theorem one_le_length_of_head? {octets : Octets} {b : UInt8} (h : octets.head? = some b) :
    1 ≤ octets.length := by
  cases octets with
  | nil => cases h
  | cons next rest => exact Nat.succ_le_succ (Nat.zero_le _)

/-- An operation passes octets that are there, or none. -/
theorem exists_act_eq_advance (operation : FieldOperation) (body : Body) :
    ∃ n ≤ body.rest.length, operation.act body = body.advance n := by
  have hstays : ∃ n ≤ body.rest.length, body = body.advance n := ⟨0, Nat.zero_le _, rfl⟩
  cases operation with
  | take n =>
      rw [act, Reader.take_eq]
      split_ifs with hthere
      · exact ⟨n, hthere, rfl⟩
      · exact hstays
  | expect b =>
      rw [act, Reader.expect_eq]
      split_ifs with hnext
      · exact ⟨1, one_le_length_of_head? hnext, rfl⟩
      · exact hstays
  | accept b =>
      rw [act, Reader.accept_eq]
      split_ifs with hnext
      · exact ⟨1, one_le_length_of_head? hnext, rfl⟩
      · exact hstays
  | digit low high => exact exists_eq_advance (Reader.digit_width low high body)
  | twoDigits low high => exact exists_eq_advance (Reader.twoDigits_width low high body)
  | weekday => exact exists_eq_advance (Reader.weekday_width body)
  | peek | rest => exact hstays
  | finish =>
      rw [act, Reader.finish_eq]
      split_ifs <;> exact hstays

theorem standsIn_act {octets : Octets} {body : Body} (h : body.StandsIn octets)
    (operation : FieldOperation) :
    (operation.act body).StandsIn octets ∧ body.position ≤ (operation.act body).position := by
  obtain ⟨n, hn, hact⟩ := operation.exists_act_eq_advance body
  rw [hact]
  exact ⟨h.advance hn, Nat.le_add_right _ _⟩

theorem standsIn_run {octets : Octets} {body : Body} (h : body.StandsIn octets)
    (operations : List FieldOperation) : (run operations body).StandsIn octets := by
  induction operations generalizing body with
  | nil => exact h
  | cons operation operations ih => exact ih (standsIn_act h operation).1

end FieldOperation

open FieldOperation in
/-- Whatever operations came before, a reader stands in its octets, nothing moves it back, and what
is left is what stands from there on. Octets are taken if and only if they are there, so that no end
is out of reach of a word; what is not there, and what is not next, is not passed. A field of fixed
width that is there in full is passed even when it is refused. -/
theorem field_operations_advance (octets : Octets) (operations : List FieldOperation) :
    let body := run operations (.start octets)
    let left := octets.drop body.position
    body.position ≤ octets.length ∧
      (∀ operation : FieldOperation, body.position ≤ (operation.act body).position) ∧
      Reader.rest body = .ok left body ∧
      Reader.peek body = .ok octets[body.position]? body ∧
      Reader.finish body = (if left = [] then .ok () body else .error .format body) ∧
      (∀ n, (n ≤ left.length → Reader.take n body = .ok (left.take n) (body.advance n) ∧
          (octets.length < 2 ^ 64 → body.position + n < 2 ^ 64)) ∧
        (left.length < n → Reader.take n body = .error .format body)) ∧
      (∀ b, Reader.accept b body =
        if left.head? = some b then .ok true (body.advance 1) else .ok false body) ∧
      (∀ b, Reader.expect b body =
        if left.head? = some b then .ok () (body.advance 1) else .error .format body) ∧
      (∀ low high, (left.length < 1 → Reader.digit low high body = .error .format body) ∧
        (1 ≤ left.length → stateOf (Reader.digit low high body) = body.advance 1)) ∧
      (∀ low high, (left.length < 2 → Reader.twoDigits low high body = .error .format body) ∧
        (2 ≤ left.length → stateOf (Reader.twoDigits low high body) = body.advance 2)) ∧
      (left.length < 3 → Reader.weekday body = .error .format body) ∧
      (3 ≤ left.length → stateOf (Reader.weekday body) = body.advance 3) := by
  intro body left
  have hstands : body.StandsIn octets := standsIn_run (.start octets) operations
  have hleft : body.rest = left := hstands.rest
  refine ⟨hstands.position, fun operation => (standsIn_act hstands operation).2, ?_, ?_, ?_, ?_, ?_,
    ?_, ?_, ?_, ?_⟩
  · rw [← hleft]
    rfl
  · rw [← List.head?_drop]
    exact congrArg (fun octets => EStateM.Result.ok (List.head? octets) body) hleft
  · rw [← hleft, Reader.finish_eq]
  · intro n
    rw [← hleft, Reader.take_eq]
    refine ⟨fun hthere => ⟨if_pos hthere, fun hwords => ?_⟩, fun hshort => if_neg (by omega)⟩
    have hlength := hstands.length_rest
    have hposition := hstands.position
    omega
  · intro b
    rw [← hleft, Reader.accept_eq]
  · intro b
    rw [← hleft, Reader.expect_eq]
  · rw [← hleft]
    exact fun low high => Reader.digit_width low high body
  · rw [← hleft]
    exact fun low high => Reader.twoDigits_width low high body
  · rw [← hleft]
    exact Reader.weekday_width body

end TimeSwitch.Wire
