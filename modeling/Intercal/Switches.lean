namespace Intercal

/-- Which slots of a chunk are abstained from at the moment. -/
structure Switches where
  slots : Array Bool

namespace Switches

def size (s : Switches) : Nat := s.slots.size

/-- Whether a slot is abstained from; there is no abstaining from what has no slot. -/
def abstained (s : Switches) (slot : Nat) : Bool := s.slots.getD slot false

def set (s : Switches) (slot : Nat) (abstained : Bool) : Switches :=
  ⟨s.slots.setIfInBounds slot abstained⟩

def setAll (s : Switches) (slots : List Nat) (abstained : Bool) : Switches :=
  slots.foldl (·.set · abstained) s

/-- Whether the slot that guards a statement is abstained from, if it has one. -/
def blocks (s : Switches) : Option Nat → Bool
  | some slot => s.abstained slot
  | none => false

@[simp] theorem size_set (s : Switches) (slot : Nat) (b : Bool) : (s.set slot b).size = s.size := by
  simp [set, size]

theorem abstained_set (s : Switches) (i j : Nat) (b : Bool) :
    (s.set i b).abstained j = if i = j ∧ j < s.size then b else s.abstained j := by
  simp only [set, abstained, size, Array.getD_eq_getD_getElem?, Array.getElem?_setIfInBounds]
  by_cases h : i = j
  · subst h
    by_cases hi : i < s.slots.size <;> simp [hi]
  · simp [h]

end Switches

end Intercal
