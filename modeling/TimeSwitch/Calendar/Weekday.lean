/-!
The seven weekdays, numbered from Sunday and written as three capital letters.
-/

namespace TimeSwitch

inductive Weekday
  | sunday | monday | tuesday | wednesday | thursday | friday | saturday
  deriving DecidableEq, Repr, Inhabited

namespace Weekday

def all : List Weekday :=
  [sunday, monday, tuesday, wednesday, thursday, friday, saturday]

/-- The days since the last Sunday. -/
def index : Weekday → Nat
  | sunday => 0
  | monday => 1
  | tuesday => 2
  | wednesday => 3
  | thursday => 4
  | friday => 5
  | saturday => 6

def ofIndex? (n : Nat) : Option Weekday :=
  all[n]?

/-- The weekday `n` days after a Sunday. -/
def afterSunday (n : Nat) : Weekday :=
  match n % 7 with
  | 0 => sunday
  | 1 => monday
  | 2 => tuesday
  | 3 => wednesday
  | 4 => thursday
  | 5 => friday
  | _ => saturday

def abbreviation : Weekday → List Char
  | sunday => ['S', 'U', 'N']
  | monday => ['M', 'O', 'N']
  | tuesday => ['T', 'U', 'E']
  | wednesday => ['W', 'E', 'D']
  | thursday => ['T', 'H', 'U']
  | friday => ['F', 'R', 'I']
  | saturday => ['S', 'A', 'T']

def ofAbbreviation? (name : List Char) : Option Weekday :=
  all.find? fun day => day.abbreviation == name

@[simp] theorem index_lt (day : Weekday) : day.index < 7 := by
  cases day <;> decide

@[simp] theorem index_afterSunday (n : Nat) : (afterSunday n).index = n % 7 := by
  have h := Nat.mod_lt n (show 0 < 7 by omega)
  unfold afterSunday
  generalize n % 7 = r at h ⊢
  match r, h with
  | 0, _ | 1, _ | 2, _ | 3, _ | 4, _ | 5, _ | 6, _ => rfl

@[simp] theorem length_abbreviation (day : Weekday) : day.abbreviation.length = 3 := by
  cases day <;> rfl

@[simp] theorem ofAbbreviation?_abbreviation (day : Weekday) :
    ofAbbreviation? day.abbreviation = some day := by
  cases day <;> rfl

end Weekday

end TimeSwitch
