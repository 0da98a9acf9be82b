import Intercal.Nexting

namespace Intercal.Relay

inductive Move where
  | next (label : Label)
  | resume (depth : Nat)
  | forget (depth : Nat)
  | add (n : Nat)
  | giveUp
  | fail (detail : String)
  | failTraced (trace : List Nat)
  | crash
  | other

structure State where
  baton : Nat
  holder : Nat := 0
  attempts : Nat := 0
  frames : List (Frame Nat) := []

inductive Deed where
  | started (baton : Nat)
  | resumed (baton : Nat)
  | resumedZero
  | forgot (count : Nat)
  | baton (value : Nat)
  | unknown
  | ended

structure Note where
  unit : Nat
  deed : Deed
  pending : List Label

inductive Result where
  | finished (baton : Nat)
  | failed (d : Diagnostic) (baton : Option Nat)

inductive Turn where
  | going (s : State)
  | ended (r : Result)

structure Step where
  turn : Turn
  note : Option Note := none
  events : List Event := []

namespace State

def note (s : State) (deed : Deed) : Note := ⟨s.holder, deed, Nexting.labels s.frames⟩

def going (s : State) (deed : Deed) (events : List Event := []) : Step :=
  { turn := .going s, note := some (s.note deed), events }

def fail (s : State) (d : Diagnostic) (baton : Option Nat) : Step :=
  { turn := .ended (.failed (d.orTraced (Nexting.labels s.frames)) baton)
    events := Nexting.failEvents d.code s.frames }

def giveUp (s : State) : Step :=
  { turn := .ended (.finished s.baton), events := Nexting.giveUpEvents s.frames }

end State

def failure (detail : String) : Diagnostic := .of .runtime .e017 detail

def step (limit : Nat) (s : State) : Move → Step
  | .next label =>
    match Nexting.next limit ⟨label, s.holder⟩ s.frames with
    | .ok frames =>
      let started := { s with holder := s.attempts + 1, attempts := s.attempts + 1, frames }
      started.going (.started s.baton) [.next label frames.length]
    | .error f => s.fail f.diagnostic (some s.baton)
  | .resume 0 => s.going .resumedZero
  | .resume depth =>
    match Nexting.resume depth s.frames with
    | .ok (frame, frames) =>
      let resumed := { s with holder := frame.waiter, frames }
      resumed.going (.resumed s.baton) (Nexting.resumeEvents depth s.frames frame)
    | .error f => s.fail f.diagnostic (some s.baton)
  | .forget depth =>
    let kept := { s with frames := Nexting.forget depth s.frames }
    kept.going (.forgot (Nexting.forgotten depth s.frames)) (Nexting.forgetEvents depth s.frames)
  | .add n =>
    let baton := (s.baton + n) % 0x10000000000000000
    { s with baton }.going (.baton baton)
  | .giveUp => s.giveUp
  | .fail detail => s.fail (failure detail) (some s.baton)
  | .failTraced trace => s.fail { failure "" with trace } none
  | .crash => s.fail Fault.crash.diagnostic none
  | .other => s.going .unknown

inductive Aftermath where
  | forgot (count : Nat)
  | ruptured (f : Fault)
  | resumedZero
  | gaveUp
  | failed
  | skipped

/-- The stack is empty then, and nobody waits for the end of the run. -/
def afterward : Move → Aftermath × List Event
  | .forget depth => (.forgot 0, Nexting.forgetEvents depth ([] : List (Frame Nat)))
  | .resume 0 => (.resumedZero, [])
  | .resume depth => (.ruptured (.rupture depth 0), [])
  | .giveUp => (.gaveUp, Nexting.giveUpEvents ([] : List (Frame Nat)))
  | .fail _ => (.failed, Nexting.failEvents .e017 ([] : List (Frame Nat)) ++ [.failedLate .e017])
  | _ => (.skipped, [])

structure Record where
  notes : List Note
  result : Result
  after : List Aftermath
  events : List Event

/-- Runs a script. Where it ends, the unit that holds the baton gives up. -/
def run (limit : Nat) (s : State) : List Move → Record
  | [] =>
    let last := s.giveUp
    ⟨[s.note .ended], .finished s.baton, [], last.events⟩
  | move :: moves =>
    let here := step limit s move
    match here.turn with
    | .going t =>
      let rest := run limit t moves
      { rest with notes := here.note.toList ++ rest.notes, events := here.events ++ rest.events }
    | .ended result =>
      let after := moves.map afterward
      ⟨[], result, after.map (·.1), here.events ++ after.flatMap (·.2)⟩

end Intercal.Relay
