import Intercal.Fault
import Intercal.Random
import Intercal.Table

namespace Intercal

structure Cell (α : Type) where
  value : α
  ignored : Bool := false
  history : List α := []

abbrev Bank (α : Type) := Table Variable (Cell α)

namespace Bank

variable {α : Type} [Inhabited α]

/-- The cell of a variable; an untouched variable gets one with the default value. -/
def cell (b : Bank α) (v : Variable) : Cell α := (b.get? v).getD { value := default }

def touch (b : Bank α) (v : Variable) : Bank α := b.insert v (b.cell v)

def stash (b : Bank α) (v : Variable) : Bank α :=
  let c := b.cell v
  b.insert v { c with history := c.value :: c.history }

/-- Takes back the value stashed last, if there is one; an ignored cell keeps its value all the same. -/
def retrieve? (b : Bank α) (v : Variable) : Option (Bank α) :=
  match b.get? v with
  | some { value, ignored, history := last :: older } =>
    some (b.insert v { value := if ignored then value else last, ignored, history := older })
  | _ => none

def ignore (b : Bank α) (v : Variable) : Bank α := b.insert v { b.cell v with ignored := true }

def remember (b : Bank α) (v : Variable) : Bank α :=
  match b.get? v with
  | some c => b.insert v { c with ignored := false }
  | none => b

end Bank

structure Grid where
  dimensions : List Nat
  elements : Array Word

namespace Grid

def count (dimensions : List Nat) : Nat := dimensions.foldl (· * ·) 1

def zero (dimensions : List Nat) : Grid := ⟨dimensions, Array.replicate (count dimensions) 0⟩

def offsetFrom (reached : Nat) : List Nat → List Nat → Option Nat
  | [], [] => some reached
  | d :: ds, i :: is => if 1 ≤ i ∧ i ≤ d then offsetFrom (reached * d + (i - 1)) ds is else none
  | _, _ => none

/-- Where the element with the given subscripts stands: there must be one for each dimension, in its range. -/
def offset? (dimensions subscripts : List Nat) : Option Nat := offsetFrom 0 dimensions subscripts

def get? (g : Grid) (subscripts : List Nat) : Option Word := do
  let i ← offset? g.dimensions subscripts
  g.elements[i]?

end Grid

structure Store where
  scalars : Bank Word := .empty
  arrays : Bank (Option Grid) := .empty
  input : List UInt8 := []
  output : Array UInt8 := #[]
  lastIn : UInt8 := 0
  lastOut : UInt8 := 0
  source : Random.Source := ⟨0, 0⟩

abbrev Action := ExceptT Fault (StateM Store)

namespace Store

def run {α : Type} (s : Store) (a : Action α) : Except Fault α × Store := a s

def read (s : Store) (v : Variable) : Except Fault Word :=
  if v.kind.isArray then .error (.hyperspace v)
  else match s.scalars.get? v with
    | some c => .ok c.value
    | none => .error (.unset v)

def exceeds (v : Variable) (x : Word) : Bool := v.kind.isShort && 65535 < x.toNat

/-- Writes a scalar. The cell is made even if the number does not fit; an ignored cell takes no notice. -/
def write (v : Variable) (x : Word) : Action Unit := fun s =>
  if v.kind.isArray then (.error (.hyperspace v), s)
  else
    let c := s.scalars.cell v
    let s := { s with scalars := s.scalars.touch v }
    if c.ignored then (.ok (), s)
    else if exceeds v x then (.error (.tooWide v x), s)
    else (.ok (), { s with scalars := s.scalars.insert v { c with value := x } })

def grid (s : Store) (v : Variable) : Except Fault Grid :=
  match s.arrays.get? v with
  | some { value := some g, .. } => .ok g
  | _ => .error (.hyperspace v)

def readElement (s : Store) (v : Variable) (subscripts : List Nat) : Except Fault Word := do
  match (← s.grid v).get? subscripts with
  | some x => .ok x
  | none => .error (.hyperspace v)

/-- Writes an element. An ignored array takes no notice, whatever the subscripts. -/
def writeElement (v : Variable) (subscripts : List Nat) (x : Word) : Action Unit := fun s =>
  match s.arrays.get? v with
  | none => (.error (.hyperspace v), s)
  | some c =>
    if c.ignored then (.ok (), s)
    else match c.value with
      | none => (.error (.hyperspace v), s)
      | some g =>
        match Grid.offset? g.dimensions subscripts with
        | none => (.error (.hyperspace v), s)
        | some i =>
          if exceeds v x then (.error (.tooWide v x), s)
          else
            let g := { g with elements := g.elements.setIfInBounds i x }
            (.ok (), { s with arrays := s.arrays.insert v { c with value := some g } })

/-- Gives an array new dimensions and zeros. The count of elements must fit 64 bits; where its octets would not fit
63 bits nothing but a crash is left. -/
def redimension (v : Variable) (dimensions : List Nat) : Action Unit := fun s =>
  if !v.kind.isArray then (.error (.hyperspace v), s)
  else if dimensions.isEmpty || dimensions.contains 0 then (.error (.noDimension v), s)
  else if 0x10000000000000000 ≤ Grid.count dimensions then (.error (.hyperspace v), s)
  else
    let c := s.arrays.cell v
    let s := { s with arrays := s.arrays.touch v }
    if c.ignored then (.ok (), s)
    else if 0x8000000000000000 ≤ 4 * Grid.count dimensions then (.error .crash, s)
    else
      let c := { c with value := some (Grid.zero dimensions) }
      (.ok (), { s with arrays := s.arrays.insert v c })

def stash (v : Variable) : Action Unit := fun s =>
  if v.kind.isArray then (.ok (), { s with arrays := s.arrays.stash v })
  else (.ok (), { s with scalars := s.scalars.stash v })

def retrieve (v : Variable) : Action Unit := fun s =>
  if v.kind.isArray then
    match s.arrays.retrieve? v with
    | some arrays => (.ok (), { s with arrays })
    | none => (.error (.nothingStashed v), s)
  else
    match s.scalars.retrieve? v with
    | some scalars => (.ok (), { s with scalars })
    | none => (.error (.nothingStashed v), s)

def ignore (v : Variable) : Action Unit := fun s =>
  if v.kind.isArray then (.ok (), { s with arrays := s.arrays.ignore v })
  else (.ok (), { s with scalars := s.scalars.ignore v })

def remember (v : Variable) : Action Unit := fun s =>
  if v.kind.isArray then (.ok (), { s with arrays := s.arrays.remember v })
  else (.ok (), { s with scalars := s.scalars.remember v })

end Store

end Intercal
