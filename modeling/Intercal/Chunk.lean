import Intercal.Statement
import Intercal.Text

namespace Intercal

inductive Op where
  | effect (e : Effect)
  | next (label : Label) (entry : Nat)
  | nextLinked (label : Label)
  | lost (label : Nat)
  | resume (depth : Expr)
  | forget (depth : Expr)
  | abstain (slots : List Nat)
  | reinstate (slots : List Nat)
  | unresolved (label : Nat)
  | giveUp
  | comeFrom
  | splat (text : String)

structure Guard where
  slot : Option Nat := none
  percent : Nat := 100
  deriving DecidableEq

/-- The way from a statement to the `COME FROM` aimed at it, with the switch and the chance of the latter. -/
structure Trapdoor where
  comeFrom : Nat
  slot : Option Nat
  percent : Nat
  deriving DecidableEq

structure Instruction where
  op : Op
  guard : Guard
  trapdoor : Option Trapdoor
  label : Option Label
  line : Nat

/-- `defaults` tells for each slot whether its statement is abstained from at the start. -/
structure Chunk where
  name : String
  instructions : Array Instruction
  defaults : Array Bool
  entries : List (Label × Nat)
  exports : List Label

namespace Chunk

def empty (name : String) : Chunk := ⟨name, #[], #[], [], []⟩

instance : Inhabited Chunk := ⟨empty ""⟩

def size (c : Chunk) : Nat := c.instructions.size

def entry? (c : Chunk) (l : Label) : Option Nat := c.entries.lookup l

def lost (c : Chunk) : List Nat :=
  c.instructions.toList.filterMap fun i =>
    match i.op with
    | .lost n => some n
    | _ => none

def splats (c : Chunk) : Nat :=
  c.instructions.toList.countP fun i =>
    match i.op with
    | .splat _ => true
    | _ => false

end Chunk

def sum (items : List String) : String := " + ".intercalate items

def Effect.write : Effect → String
  | .assign (.scalar v) e => "ASSIGN " ++ v.write ++ " <- " ++ e.write
  | .assign (.element a subs) e =>
    "ASSIGN " ++ a.write ++ " SUB" ++ Expr.writeSubscripts subs ++ " <- " ++ e.write
  | .redimension a dims => "REDIM " ++ a.write ++ " <- " ++ " BY ".intercalate (dims.map Expr.write)
  | .stash vs => "STASH " ++ sum (vs.map Variable.write)
  | .retrieve vs => "RETRIEVE " ++ sum (vs.map Variable.write)
  | .ignore vs => "IGNORE " ++ sum (vs.map Variable.write)
  | .remember vs => "REMEMBER " ++ sum (vs.map Variable.write)
  | .readOut items => "READ OUT " ++ sum (items.map Expr.write)
  | .writeIn vs => "WRITE IN " ++ sum (vs.map Variable.write)

def writeSlots (slots : List Nat) : String := "slots [" ++ ", ".intercalate (slots.map toString) ++ "]"

def Op.write : Op → String
  | .effect e => e.write
  | .next l entry => "NEXT " ++ l.write ++ " @" ++ toString entry
  | .nextLinked l => "NEXT " ++ l.write ++ " (linked)"
  | .lost n => "NEXT " ++ Label.writeRaw n ++ " (lost)"
  | .resume e => "RESUME " ++ e.write
  | .forget e => "FORGET " ++ e.write
  | .abstain slots => "ABSTAIN " ++ writeSlots slots
  | .reinstate slots => "REINSTATE " ++ writeSlots slots
  | .unresolved n => "ABSTAIN/REINSTATE " ++ Label.writeRaw n ++ " (unresolved)"
  | .giveUp => "GIVE UP"
  | .comeFrom => "COME FROM"
  | .splat text => "* " ++ text

namespace Chunk

open Text

def listingLine (c : Chunk) (index : Nat) (i : Instruction) : String :=
  let label := (i.label.map Label.write).getD ""
  let slot := match i.guard.slot with
    | some s => "[slot " ++ toString s ++ (if c.defaults.getD s false then " off] " else " on] ")
    | none => ""
  let percent := if i.guard.percent < 100 then "%" ++ toString i.guard.percent ++ " " else ""
  let trapdoor := match i.trapdoor with
    | some t => "  => COME FROM @" ++ toString t.comeFrom
    | none => ""
  padLeft 4 (toString index) ++ " " ++ padLeft 7 label ++ " " ++ slot ++ percent ++ i.op.write ++ trapdoor

def listing (c : Chunk) : String :=
  let head := "== " ++ c.name ++ " (" ++ toString c.size ++ " statements, " ++ toString c.defaults.size ++
    " abstain slots) ==\n"
  let body := String.join (c.instructions.toList.zipIdx.map fun (i, n) => c.listingLine n i ++ "\n")
  let exports := if c.exports.isEmpty then "" else "exports: " ++ sum (c.exports.map Label.write) ++ "\n"
  head ++ body ++ exports

end Chunk

end Intercal
