import Intercal.Fault

namespace Intercal

/-- A number and whether it may use all 32 bits. -/
structure Value where
  bits : Word
  wide : Bool
  deriving DecidableEq

namespace Bits

def ofList : List Bool → Word
  | [] => 0#32
  | b :: bs => BitVec.ofNat 32 b.toNat ||| (ofList bs <<< 1)

def interleave {α : Type} : List α → List α → List α
  | a :: as, b :: bs => a :: b :: interleave as bs
  | _, _ => []

def bitsAt (w : Word) (places : List Nat) : List Bool := places.map w.getLsbD

/-- Puts the low 16 bits of `left` at the odd places and those of `right` at the even ones. -/
def mingle? (left right : Word) : Option Word :=
  if left.toNat ≤ 65535 ∧ right.toNat ≤ 65535 then
    some (ofList (interleave (bitsAt right (List.range 16)) (bitsAt left (List.range 16))))
  else
    none

/-- Packs the bits of `value` under the one-bits of `mask` into the low end. -/
def select (value mask : Word) : Word :=
  ofList (bitsAt value ((List.range 32).filter mask.getLsbD))

def combine {n : Nat} (op : UnaryOp) (x y : BitVec n) : BitVec n :=
  match op with
  | .and => x &&& y
  | .or => x ||| y
  | .xor => x ^^^ y

def unary (op : UnaryOp) (v : Value) : Value :=
  if v.wide then
    { v with bits := combine op v.bits (v.bits.rotateRight 1) }
  else
    let low := v.bits.setWidth 16
    { v with bits := (combine op low (low.rotateRight 1)).setWidth 32 }

def mingle (left right : Word) : Except Fault Word :=
  match mingle? left right with
  | some w => .ok w
  | none => .error (.mingleTooWide left right)

end Bits

end Intercal
