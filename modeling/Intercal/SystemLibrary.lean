import Intercal.Store.Stream

namespace Intercal.SystemLibrary

def routines : List Nat :=
  [1000, 1009, 1010, 1020, 1030, 1039, 1040, 1050, 1500, 1509, 1510, 1520, 1530, 1540, 1549, 1550, 1900]

def name : String := "syslib"

def spot (n : Nat) : Action Word := fun s => (s.read (.spot n), s)

def twoSpot (n : Nat) : Action Word := fun s => (s.read (.twoSpot n), s)

def setSpot (n : Nat) (x : Word) : Action Unit := Store.write (.spot n) x

def setTwoSpot (n : Nat) (x : Word) : Action Unit := Store.write (.twoSpot n) x

def checkedAdd (x y : Word) : Option Word := if x.uaddOverflow y then none else some (x + y)

def checkedMul (x y : Word) : Option Word := if x.umulOverflow y then none else some (x * y)

def low (x : Word) : Word := x &&& 0xFFFF#32

def narrow (value : Option Word) : Option Word := value.filter (· ≤ 0xFFFF#32)

def fitting (routine : Nat) : Option Word → Action Word
  | some x => pure x
  | none => throw (.overflow routine)

/-- Routines whose numbers end in 9 report an overflow, where the others fault. -/
def flagged (set : Nat → Word → Action Unit) (value : Option Word) (wrapped : Word) : Action Unit := do
  set 3 (value.getD wrapped)
  set 4 (if value.isSome then 1#32 else 2#32)

def short : Nat := 0x10000

def call (routine : Nat) : Action Unit := do
  match routine with
  | 1000 => setSpot 3 (← fitting routine (narrow (some ((← spot 1) + (← spot 2)))))
  | 1009 =>
    let sum := (← spot 1) + (← spot 2)
    flagged setSpot (narrow (some sum)) (low sum)
  | 1010 => setSpot 3 (((← spot 1).setWidth 16 - (← spot 2).setWidth 16).setWidth 32)
  | 1020 => setSpot 1 (((← spot 1).setWidth 16 + 1#16).setWidth 32)
  | 1030 => setSpot 3 (← fitting routine (narrow (checkedMul (← spot 1) (← spot 2))))
  | 1039 =>
    let a ← spot 1
    let b ← spot 2
    flagged setSpot (narrow (checkedMul a b)) (low (a * b))
  | 1040 => setSpot 3 ((← spot 1) / (← spot 2))
  | 1050 => setSpot 2 (← fitting routine (narrow (some ((← twoSpot 1) / (← spot 1)))))
  | 1500 => setTwoSpot 3 (← fitting routine (checkedAdd (← twoSpot 1) (← twoSpot 2)))
  | 1509 =>
    let a ← twoSpot 1
    let b ← twoSpot 2
    flagged setTwoSpot (checkedAdd a b) (a + b)
  | 1510 => setTwoSpot 3 ((← twoSpot 1) - (← twoSpot 2))
  | 1520 => setTwoSpot 1 ((← spot 1) <<< 16 ||| (← spot 2))
  | 1530 => setTwoSpot 1 ((← spot 1) * (← spot 2))
  | 1540 => setTwoSpot 3 (← fitting routine (checkedMul (← twoSpot 1) (← twoSpot 2)))
  | 1549 =>
    let a ← twoSpot 1
    let b ← twoSpot 2
    flagged setTwoSpot (checkedMul a b) (a * b)
  | 1550 => setTwoSpot 3 ((← twoSpot 1) / (← twoSpot 2))
  | 1900 =>
    let x ← fun s => let (x, s) := s.random short; (.ok x, s)
    Store.write (.spot 1) x
  | _ => throw (.lost routine)

end Intercal.SystemLibrary
