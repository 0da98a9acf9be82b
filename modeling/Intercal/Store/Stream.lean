import Intercal.Store
import Intercal.Text

namespace Intercal.Store

def reverseBits (b : UInt8) : UInt8 := UInt8.ofBitVec b.toBitVec.reverse

def emit (bytes : List UInt8) : Action Unit := modify fun s => { s with output := s.output ++ bytes }

def numberLine (x : Word) : List UInt8 := Text.Utf8.encode (toString x.toNat ++ "\n").toList

def readOut (x : Word) : Action Unit := emit (numberLine x)

/-- The octets that elements are written as after `last`, before their bits are reversed. -/
def turing (last : UInt8) : List Word → List UInt8
  | [] => []
  | x :: xs =>
    let c := last - UInt8.ofNat x.toNat
    c :: turing c xs

def readOutArray (v : Variable) : Action Unit := fun s =>
  match s.grid v with
  | .error f => (.error f, s)
  | .ok g =>
    let octets := turing s.lastOut g.elements.toList
    (.ok (), { s with
      output := s.output ++ octets.map reverseBits
      lastOut := octets.getLast?.getD s.lastOut })

def readByte : Action UInt8 := fun s =>
  match s.input with
  | b :: rest => (.ok b, { s with input := rest })
  | [] => (.error .endOfInput, s)

def fill (v : Variable) (i : Nat) : Nat → Action Unit
  | 0 => pure ()
  | n + 1 => do
    let b ← readByte
    let s ← getThe Store
    modify fun s => { s with lastIn := b }
    writeElement v [i] (BitVec.ofNat 32 (b - s.lastIn).toNat)
    fill v (i + 1) n

def splitLine (input : List UInt8) : List UInt8 × List UInt8 :=
  match input.span (· != 10) with
  | (line, b :: rest) => (line ++ [b], rest)
  | (line, []) => (line, [])

def readLine : Action (List UInt8) := fun s =>
  match s.input with
  | [] => (.error .endOfInput, s)
  | _ =>
    let (line, rest) := splitLine s.input
    (.ok line, { s with input := rest })

def lineNumber (line : List UInt8) : Except Fault Word :=
  match Text.Utf8.decode? line with
  | none => .error .notText
  | some text =>
    match Text.readWord? (Text.trim text) with
    | some n => .ok (BitVec.ofNat 32 n)
    | none => .error (.notNumber (String.ofList (Text.trim text)))

def writeIn (v : Variable) : Action Unit := do
  if v.kind.isArray then
    let s ← getThe Store
    match ← (s.grid v : Except Fault Grid) with
    | { dimensions := [n], .. } => fill v 1 n
    | _ => throw (.hyperspace v)
  else
    let line ← readLine
    let x ← lineNumber line
    write v x

/-- True in `percent` cases out of a hundred. Certainties draw nothing. -/
def chance (percent : Nat) (s : Store) : Bool × Store :=
  if percent = 0 then (false, s)
  else if 100 ≤ percent then (true, s)
  else
    let (n, source) := s.source.percent
    (n < percent, { s with source })

def random (bound : Nat) (s : Store) : Word × Store :=
  if bound = 0 then (0, s)
  else
    let (n, source) := s.source.below bound
    (BitVec.ofNat 32 n, { s with source })

def contents (s : Store) : String := String.ofList (Text.Utf8.decodeLossy s.output.toList)

end Intercal.Store
