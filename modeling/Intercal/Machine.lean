import Intercal.Eval
import Intercal.Linkage
import Intercal.Nexting
import Intercal.Switches

namespace Intercal

structure Site where
  part : Nat
  index : Nat
  deriving DecidableEq

/-- Who waits for a frame: the host that entered the machine, or the statement of a `NEXT`. -/
inductive Waiter where
  | host
  | site (s : Site)
  deriving DecidableEq

/-- What stays the same while the machine runs. There may be a limit to the number of draws. -/
structure Machine where
  parts : Array Part
  maxDepth : Nat
  maxDraws : Option Nat := none

namespace Machine

/-- `leaving` tells that the statement at the site is done. `switches` has an entry for each part. -/
structure State where
  site : Site
  leaving : Bool := false
  frames : List (Frame Waiter) := []
  switches : Array Switches
  store : Store
  draws : Nat := 0

inductive Ending where
  | gaveUp
  | failed (d : Diagnostic)
  | returned

inductive Turn where
  | going (s : State)
  | ended (e : Ending) (s : State)

abbrev Step := Turn × List Event

namespace State

def done (s : State) : State := { s with leaving := true }

def goTo (s : State) (index : Nat) : State := { s with site := { s.site with index } }

def switch (s : State) : Switches := s.switches.getD s.site.part ⟨#[]⟩

def setSwitches (s : State) (slots : List Nat) (abstained : Bool) : State :=
  { s with switches := s.switches.modify s.site.part (·.setAll slots abstained) }

/-- Everything pending is dropped, and the labels go into the diagnostic. -/
def fail (s : State) (d : Diagnostic) : Step :=
  (.ended (.failed (d.orTraced (Nexting.labels s.frames))) { s with frames := [] },
    Nexting.failEvents d.code s.frames)

def giveUp (s : State) : Step :=
  (.ended .gaveUp { s with frames := [] }, Nexting.giveUpEvents s.frames)

def forget (s : State) (depth : Nat) : Step :=
  (.going { s with frames := Nexting.forget depth s.frames, leaving := true },
    Nexting.forgetEvents depth s.frames)

end State

def part (m : Machine) (number : Nat) : Part := m.parts.getD number default

def chunk (m : Machine) (s : State) : Chunk := (m.part s.site.part).chunk

def instruction? (m : Machine) (s : State) : Option Instruction := (m.chunk s).instructions[s.site.index]?

/-- Whether chance is with the program. There is no answer once the draws are used up. -/
def draw (m : Machine) (percent : Nat) (s : State) : Option (Bool × State) :=
  if m.maxDraws.all (s.draws < ·) then
    let (lucky, store) := s.store.chance percent
    some (lucky, { s with store, draws := s.draws + 1 })
  else none

def report (m : Machine) (s : State) (line : Nat) (f : Fault) : Diagnostic :=
  if f.isLocated then f.diagnostic.located ⟨line, 1, some (m.chunk s).name⟩ else f.diagnostic

def act {α : Type} (m : Machine) (s : State) (line : Nat) (a : Action α) (k : α → State → Step) : Step :=
  match s.store.run a with
  | (.ok x, store) => k x { s with store }
  | (.error f, store) => { s with store }.fail (m.report s line f)

def next (m : Machine) (s : State) (line : Nat) (label : Label) (target : Site) : Step :=
  match Nexting.next m.maxDepth ⟨label, .site s.site⟩ s.frames with
  | .ok frames => (.going { s with site := target, frames }, [.next label frames.length])
  | .error f => s.fail (m.report s line f)

def resume (m : Machine) (s : State) (line depth : Nat) : Step :=
  match Nexting.resume depth s.frames with
  | .ok (frame, frames) =>
    let events := Nexting.resumeEvents depth s.frames frame
    match frame.waiter with
    | .site site => (.going { s with site, frames, leaving := true }, events)
    | .host => (.ended .returned { s with frames }, events)
  | .error f => s.fail (m.report s line f)

/-- A routine of the system library or of the host needs no frame; one of another part gets one. -/
def call (m : Machine) (s : State) (line : Nat) (label : Label) (c : Component) : Step :=
  match c.body with
  | .system => m.act s line (SystemLibrary.call label.value) fun _ s => (.going s.done, [])
  | .library number =>
    match (m.part number).chunk.entry? label with
    | some index => m.next s line label ⟨number, index⟩
    | none => s.fail (m.report s line (.lost label.value))
  | .host routines =>
    m.act s line (routines label) fun reply s =>
      match reply with
      | .resumed => (.going s.done, [])
      | .forgot depth => s.forget depth
      | .gaveUp => s.giveUp
      | .failed d => s.fail (d.orLocated ⟨line, 1, some (m.chunk s).name⟩)

def perform (m : Machine) (s : State) (line : Nat) : Op → Step
  | .effect e => m.act s line e.perform fun _ s => (.going s.done, [])
  | .next label entry => m.next s line label ⟨s.site.part, entry⟩
  | .nextLinked label =>
    match (m.part s.site.part).linkage.owner? label with
    | some c =>
      let (turn, events) := m.call s line label c
      (turn, .nextLinked label c.name :: events)
    | none => s.fail (m.report s line (.lost label.value))
  | .lost n => s.fail (m.report s line (.lost n))
  | .resume e =>
    m.act s line e.value fun v s =>
      if v.bits = 0 then (.going s.done, []) else m.resume s line v.bits.toNat
  | .forget e => m.act s line e.value fun v s => s.forget v.bits.toNat
  | .abstain slots => (.going (s.setSwitches slots true).done, [])
  | .reinstate slots => (.going (s.setSwitches slots false).done, [])
  | .unresolved n => s.fail (m.report s line (.unresolved n))
  | .giveUp => s.giveUp
  | .comeFrom => (.going s.done, [])
  | .splat text => s.fail (m.report s line (.splat text))

def enterStatement (m : Machine) (s : State) : Step :=
  match m.instruction? s with
  | none => s.fail (Fault.fellOff s.site.index (m.chunk s).name).diagnostic
  | some i =>
    let skip (s : State) : Step := (.going s.done, [.skipped (m.chunk s).name s.site.index i.line])
    if s.switch.blocks i.guard.slot then skip s
    else match m.draw i.guard.percent s with
      | none => s.fail Fault.crash.diagnostic
      | some (false, s) => skip s
      | some (true, s) =>
        let (turn, events) := m.perform s i.line i.op
        (turn, .executed i.op (m.chunk s).name s.site.index i.line :: events)

/-- Leaves the statement that is done. A `COME FROM` that takes control is itself done, and may lose it to another. -/
def leaveStatement (m : Machine) (s : State) : Step :=
  let follow (s : State) : Step := (.going { s.goTo (s.site.index + 1) with leaving := false }, [])
  match (m.instruction? s).bind (·.trapdoor) with
  | none => follow s
  | some t =>
    if s.switch.blocks t.slot then follow s
    else match m.draw t.percent s with
      | none => s.fail Fault.crash.diagnostic
      | some (false, s) => follow s
      | some (true, s) => (.going (s.goTo t.comeFrom), [.cameFrom s.site.index t.comeFrom])

def step (m : Machine) (s : State) : Step :=
  if s.leaving then m.leaveStatement s else m.enterStatement s

def run (m : Machine) (events : Array Event) : Nat → State → Turn × Array Event
  | 0, s => (.going s, events)
  | n + 1, s =>
    match m.step s with
    | (.going s, new) => m.run (events ++ new) n s
    | (.ended e s, new) => (.ended e s, events ++ new)

/-- A number of steps that is enough to end a run with limited draws: without a draw, control can only go down a
chunk. -/
def horizon (m : Machine) (maxDraws : Nat) : Nat :=
  let longest := m.parts.foldl (fun n p => max n p.chunk.size) 0
  (maxDraws + 1) * (2 * longest + 4)

end Machine

end Intercal
