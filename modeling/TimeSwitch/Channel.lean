/-!
The four switched channels of a time switch: their directions, and the readings taken of them.
-/

namespace TimeSwitch

/-- A channel of the device, counted from zero. -/
abbrev Channel := Fin 4

/-- All channels in order. -/
def Channel.all : List Channel := [0, 1, 2, 3]

/-- The value of a channel, where every channel has one. -/
def Channel.valueIn (channel : Channel) (values : Vector α 4) : α := values[channel]

/-- Gives a channel a new value, where every channel has one. -/
def Channel.update (channel : Channel) (value : α) (values : Vector α 4) : Vector α 4 :=
  values.set channel value channel.isLt

/-- The channel of that number, if there is one. -/
def Channel.ofNat? (n : Nat) : Option Channel :=
  if h : n < 4 then some ⟨n, h⟩ else none

@[simp] theorem Channel.valueIn_update_self (channel : Channel) (value : α)
    (values : Vector α 4) : channel.valueIn (channel.update value values) = value := by
  simp [valueIn, update]

theorem Channel.valueIn_update_of_ne {a b : Channel} {value : α} {values : Vector α 4}
    (h : a ≠ b) : b.valueIn (a.update value values) = b.valueIn values := by
  simp [valueIn, update, Vector.getElem_set_ne _ _ (Fin.val_ne_of_ne h)]

@[simp] theorem Channel.valueIn_replicate (channel : Channel) (value : α) :
    channel.valueIn (Vector.replicate 4 value) = value := by
  simp [valueIn]

theorem Channel.mem_all (channel : Channel) : channel ∈ Channel.all := by
  revert channel; decide

theorem Channel.nodup_all : Channel.all.Nodup := by decide

/-- Whether a channel is read or driven. -/
inductive Direction
  | input | output
  deriving DecidableEq, Repr, Inhabited

namespace Direction

def word : Direction → List Char
  | input => ['I', 'N']
  | output => ['O', 'U', 'T']

def ofWord? (text : List Char) : Option Direction :=
  [input, output].find? fun direction => direction.word == text

@[simp] theorem ofWord?_word (direction : Direction) : ofWord? direction.word = some direction := by
  cases direction <;> rfl

end Direction

/-- What is known of a channel's level; a channel that cannot be read has no level. -/
inductive Reading
  | on | off | unknown
  deriving DecidableEq, Repr

namespace Reading

def ofLevel (high : Bool) : Reading :=
  if high then on else off

/-- A level that may have failed to be read. -/
def ofSample : Except ε Bool → Reading
  | .ok high => ofLevel high
  | .error _ => unknown

def symbol : Reading → Char
  | on => '1'
  | off => '0'
  | unknown => '?'

/-- An unknown level counts as low. -/
def isOn : Reading → Bool
  | on => true
  | off | unknown => false

@[simp] theorem isOn_ofLevel (high : Bool) : (ofLevel high).isOn = high := by
  cases high <;> rfl

end Reading

end TimeSwitch
