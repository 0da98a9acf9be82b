import Intercal.Event
import Intercal.Expr.Fold
import Intercal.Program

namespace Intercal

/-- How a program is compiled. `linked` are the labels that components export, and `exported` those that the chunk
may export; with none given it exports all of its labels. -/
structure Setting where
  name : String
  linked : List Label := []
  optimize : Bool := true
  polite : Bool := true
  exported : Option (List Nat) := none

def Program.event (p : Program) (name : String) : Event := .analyzed name p.size p.slotCount

namespace Chunk

/-- The slots that an abstention switches, or the label it names in vain. -/
def slotsOf (p : Program) : Abstention → Except Nat (List Nat)
  | .label n =>
    match p.position? n with
    | some i => .ok (p.slot? i).toList
    | none => .error n
  | .gerunds gs => .ok ((gs.flatMap p.members).filterMap p.slot?)

def lowerNext (p : Program) (linked : List Label) (target : Nat) : Op :=
  match Label.ofNat? target with
  | none => .lost target
  | some label =>
    match p.position? target with
    | some entry => .next label entry
    | none => if linked.contains label then .nextLinked label else .lost target

def lowerOp (p : Program) (linked : List Label) (s : Statement) : Op :=
  match s.body with
  | .effect e => .effect e
  | .next target => lowerNext p linked target
  | .resume e => .resume e
  | .forget e => .forget e
  | .abstain t =>
    match slotsOf p t with
    | .ok slots => .abstain slots
    | .error n => .unresolved n
  | .reinstate t =>
    match slotsOf p t with
    | .ok slots => .reinstate slots
    | .error n => .unresolved n
  | .giveUp => .giveUp
  | .comeFrom _ => .comeFrom
  | .malformed => .splat s.text

/-- A `COME FROM` acts at its target, so nothing guards it where it stands. -/
def guardOf (p : Program) (i : Nat) (s : Statement) : Guard :=
  match s.body with
  | .comeFrom _ => {}
  | _ => ⟨p.slot? i, s.header.percent⟩

def trapdoorOf (p : Program) (i : Nat) : Option Trapdoor := do
  let origin ← p.trapdoors.getD i none
  let s ← p.statements[origin]?
  return ⟨origin, p.slot? origin, s.header.percent⟩

def lowerStatement (p : Program) (linked : List Label) (s : Statement) (i : Nat) : Instruction where
  op := lowerOp p linked s
  guard := guardOf p i s
  trapdoor := trapdoorOf p i
  label := s.header.label.bind Label.ofNat?
  line := s.position.line

def warnings (s : Statement) : Op → List Event
  | .splat text => if s.header.enabled then [.splatted text s.position.line] else []
  | .lost n => [.lostNext n s.position.line]
  | _ => []

def lower (setting : Setting) (p : Program) : Chunk where
  name := setting.name
  instructions := (p.statements.zipIdx.map fun (s, i) => lowerStatement p setting.linked s i).toArray
  defaults :=
    ((p.statements.zip p.slots).filterMap fun (s, slot) => slot.map fun _ => !s.header.enabled).toArray
  entries := p.labels
  exports := (p.labels.map (·.1)).filter fun l => setting.exported.all (·.contains l.value)

end Chunk

def Target.fold : Target → Folded Target
  | .scalar v => .none (.scalar v)
  | .element a subs => (Expr.foldAll subs).map (.element a)

def Effect.fold : Effect → Folded Effect
  | .assign target value => (target.fold.both value.fold).map fun p => .assign p.1 p.2
  | .redimension a dims => (Expr.foldAll dims).map (.redimension a)
  | .readOut items => (Expr.foldAll items).map .readOut
  | e => .none e

def Op.fold : Op → Folded Op
  | .effect e => e.fold.map .effect
  | .resume e => e.fold.map .resume
  | .forget e => e.fold.map .forget
  | op => .none op

def Instruction.fold (i : Instruction) : Folded Instruction := i.op.fold.map fun op => { i with op }

namespace Chunk

def fold (c : Chunk) : Folded Chunk :=
  let all := c.instructions.map Instruction.fold
  { result := { c with instructions := all.map (·.result) }
    folded := all.foldl (fun n i => n + i.folded) 0
    visited := all.foldl (fun n i => n + i.visited) 0 }

def compile (setting : Setting) (statements : List Statement) : Except Rejection (Chunk × List Event) := do
  let p ← Program.analyze setting.polite statements
  let lowered := lower setting p
  let report := p.event setting.name ::
    (p.statements.flatMap fun s => warnings s (lowerOp p setting.linked s))
  if setting.optimize then
    let f := lowered.fold
    return (f.result, report ++ [.optimized setting.name f.folded f.visited])
  else
    return (lowered, report)

end Chunk

end Intercal
