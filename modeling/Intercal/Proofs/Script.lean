import Intercal.Program
import Intercal.Proofs.Lockstep

namespace Intercal

/-- A program, what it is linked with, and the libraries with their switches. -/
structure Script where
  name : String
  statements : List Statement
  linkage : Linkage
  libraries : Array (Part × Switches)
  maxDepth : Nat

def Body.origin? : Body → Option Nat
  | .comeFrom n => some n
  | _ => none

namespace Script

open Machine

def number (p : Script) : Nat := p.libraries.size

def outline (p : Script) : Chunk :=
  { Chunk.empty p.name with entries := Program.labels ⟨p.statements, [], []⟩ }

def machine (p : Script) (c : Chunk) : Machine where
  parts := (p.libraries.map (·.1)).push ⟨c, p.linkage⟩
  maxDepth := p.maxDepth

def start (p : Script) (program : Switches) (store : Store) : State where
  site := ⟨p.number, 0⟩
  switches := (p.libraries.map (·.2)).push program
  store

def flags (p : Script) : Switches := ⟨(p.statements.map fun s ↦ !s.header.enabled).toArray⟩

def fail (p : Script) (s : State) (line : Nat) (f : Fault) : Turn :=
  (s.fail ((p.machine p.outline).report s line f)).1

def positions (statements : List Statement) (q : Statement → Bool) : List Nat :=
  (statements.zipIdx.filter fun c ↦ q c.1).map (·.2)

def named (p : Script) : Abstention → Except Nat (List Nat)
  | .label n =>
    match positionOf? p.statements n with
    | some i => .ok [i]
    | none => .error n
  | .gerunds gs => .ok (positions p.statements fun s ↦ s.body.gerund?.any gs.contains)

def switch (p : Script) (s : State) (line : Nat) (t : Abstention) (abstained : Bool) : Turn :=
  match p.named t with
  | .ok positions => .going (s.setSwitches positions abstained).done
  | .error n => p.fail s line (.unresolved n)

def next (p : Script) (s : State) (line target : Nat) : Turn :=
  match Label.ofNat? target with
  | none => p.fail s line (.lost target)
  | some label =>
    match positionOf? p.statements target with
    | some i => ((p.machine p.outline).next s line label ⟨p.number, i⟩).1
    | none =>
      match p.linkage.owner? label with
      | some c => ((p.machine p.outline).call s line label c).1
      | none => p.fail s line (.lost target)

def perform (p : Script) (s : State) (line : Nat) (text : String) : Body → Turn
  | .effect e => ((p.machine p.outline).act s line e.perform fun _ s ↦ (.going s.done, [])).1
  | .next target => p.next s line target
  | .resume e =>
    ((p.machine p.outline).act s line e.value fun v s ↦
      if v.bits = 0 then (.going s.done, []) else (p.machine p.outline).resume s line v.bits.toNat).1
  | .forget e => ((p.machine p.outline).act s line e.value fun v s ↦ s.forget v.bits.toNat).1
  | .abstain t => p.switch s line t true
  | .reinstate t => p.switch s line t false
  | .giveUp => s.giveUp.1
  | .comeFrom _ => .going s.done
  | .malformed => p.fail s line (.splat text)

/-- Takes up a statement, unless it is abstained from or chance is against it. A `COME FROM` does nothing where it
stands, and nothing is drawn for it. -/
def enterStatement (p : Script) (s : State) : Turn :=
  match p.statements[s.site.index]? with
  | none => (s.fail (Fault.fellOff s.site.index p.name).diagnostic).1
  | some t =>
    if t.body.origin?.isSome then .going s.done
    else if s.switch.abstained s.site.index then .going s.done
    else
      match s.store.chance t.header.percent with
      | (false, store) => .going { s with store }.done
      | (true, store) => p.perform { s with store } t.position.line t.text t.body

def comeFrom? (p : Script) (i : Nat) : Option (Statement × Nat) := do
  let s ← p.statements[i]?
  let n ← s.header.label
  p.statements.zipIdx.find? fun c ↦ c.1.body.origin? == some n

/-- Leaves a statement for the `COME FROM` that names it, if that one is not abstained from and chance is with it, or
else for the next statement. -/
def leaveStatement (p : Script) (s : State) : Turn :=
  let follow (s : State) : Turn := .going { s.goTo (s.site.index + 1) with leaving := false }
  match p.comeFrom? s.site.index with
  | none => follow s
  | some (c, i) =>
    if s.switch.abstained i then follow s
    else
      match s.store.chance c.header.percent with
      | (false, store) => follow { s with store }
      | (true, store) => .going ({ s with store }.goTo i)

def turn (p : Script) (s : State) : Turn :=
  if s.site.part = p.number then
    if s.leaving then p.leaveStatement s else p.enterStatement s
  else (p.machine p.outline).turn s

end Script

end Intercal
