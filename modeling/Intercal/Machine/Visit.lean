import Intercal.Machine

namespace Intercal.Machine

def enter (m : Machine) (s : State) (number : Nat) (label : Label) : Except Fault (State × List Event) :=
  match (m.part number).chunk.entry? label with
  | none => .error (.lost label.value)
  | some index => do
    let frames ← Nexting.next m.maxDepth ⟨label, .host⟩ s.frames
    return ({ s with site := ⟨number, index⟩, leaving := false, frames }, [.next label frames.length])

inductive Reception where
  | resumed
  | aborted
  | refused (f : Fault)

structure Visit where
  reception : Reception
  state : State
  events : List Event

/-- Nobody hears of a failure once the host is gone. -/
def received : Turn → Reception × State × List Event
  | .going s => (.aborted, s, [])
  | .ended .returned s => (.resumed, s, [])
  | .ended .gaveUp s => (.aborted, s, [])
  | .ended (.failed d) s => (.aborted, s, [.failedLate d.code])

def visit (m : Machine) (s : State) (maxDraws number : Nat) (label : Label) : Visit :=
  match m.enter s number label with
  | .error f => ⟨.refused f, s, []⟩
  | .ok (s, entered) =>
    let (turn, events) := { m with maxDraws := some maxDraws }.run entered.toArray (m.horizon maxDraws) s
    let (reception, s, late) := received turn
    ⟨reception, s, events.toList ++ late⟩

def visits (m : Machine) (maxDraws number : Nat) (s : State) : List Label → List Visit
  | [] => []
  | label :: labels =>
    let v := m.visit s maxDraws number label
    v :: m.visits maxDraws number v.state labels

end Intercal.Machine
