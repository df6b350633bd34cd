/-!
A fixed row of slots, each empty or holding a value. The lemmas say what each operation does to
the view `get?`.
-/

namespace TimeSwitch

structure Slots (n : Nat) (α : Type) where
  cells : Vector (Option α) n
  deriving DecidableEq

namespace Slots

variable {n : Nat} {α : Type}

def empty : Slots n α := ⟨Vector.replicate n none⟩

def get? (slots : Slots n α) (i : Fin n) : Option α := slots.cells[i]

/-- Fills a slot, whatever it held. -/
def put (slots : Slots n α) (i : Fin n) (value : α) : Slots n α :=
  ⟨slots.cells.set i (some value) i.isLt⟩

def clear (slots : Slots n α) (i : Fin n) : Slots n α :=
  ⟨slots.cells.set i none i.isLt⟩

/-- Changes every value that is there. -/
def mapValues (slots : Slots n α) (f : α → α) : Slots n α :=
  ⟨slots.cells.map (Option.map f)⟩

def toList (slots : Slots n α) : List (Option α) := slots.cells.toList

/-- The values that are there, with their slots. -/
def entries (slots : Slots n α) : List (Fin n × α) :=
  (List.finRange n).filterMap fun i => (slots.get? i).map (i, ·)

/-- How many slots hold a value. -/
def filled (slots : Slots n α) : Nat :=
  slots.toList.countP Option.isSome

theorem ext_get? {a b : Slots n α} (h : ∀ i, a.get? i = b.get? i) : a = b := by
  obtain ⟨a⟩ := a
  obtain ⟨b⟩ := b
  congr 1
  ext i hi : 1
  exact h ⟨i, hi⟩

@[simp] theorem get?_empty (i : Fin n) : (empty : Slots n α).get? i = none := by
  simp [empty, get?]

@[simp] theorem get?_put_self (slots : Slots n α) (i : Fin n) (value : α) :
    (slots.put i value).get? i = some value := by
  simp [put, get?]

theorem get?_put_of_ne {slots : Slots n α} {i j : Fin n} {value : α} (h : i ≠ j) :
    (slots.put i value).get? j = slots.get? j := by
  simp [put, get?, Vector.getElem_set_ne _ _ (Fin.val_ne_of_ne h)]

@[simp] theorem get?_clear_self (slots : Slots n α) (i : Fin n) :
    (slots.clear i).get? i = none := by
  simp [clear, get?]

theorem get?_clear_of_ne {slots : Slots n α} {i j : Fin n} (h : i ≠ j) :
    (slots.clear i).get? j = slots.get? j := by
  simp [clear, get?, Vector.getElem_set_ne _ _ (Fin.val_ne_of_ne h)]

@[simp] theorem get?_mapValues (slots : Slots n α) (f : α → α) (i : Fin n) :
    (slots.mapValues f).get? i = (slots.get? i).map f := by
  simp [mapValues, get?]

end Slots

end TimeSwitch
