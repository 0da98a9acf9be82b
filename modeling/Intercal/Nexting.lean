import Intercal.Event
import Intercal.Fault

namespace Intercal

structure Frame (α : Type) where
  label : Label
  waiter : α

namespace Nexting

variable {α : Type}

def labels (frames : List (Frame α)) : List Label := frames.map (·.label)

def next (limit : Nat) (frame : Frame α) (frames : List (Frame α)) :
    Except Fault (List (Frame α)) :=
  if frames.length < limit then .ok (frame :: frames) else .error (.tooDeep limit)

/-- Drops all but one of the top frames, a positive number of them, and takes the last of these. -/
def resume (depth : Nat) (frames : List (Frame α)) : Except Fault (Frame α × List (Frame α)) :=
  match frames.drop (depth - 1) with
  | frame :: rest => .ok (frame, rest)
  | [] => .error (.rupture depth frames.length)

def forget (depth : Nat) (frames : List (Frame α)) : List (Frame α) := frames.drop depth

def forgotten (depth : Nat) (frames : List (Frame α)) : Nat := (frames.take depth).length

def aborts (frames : List (Frame α)) : List Event := frames.map fun f => .aborted f.label

def resumeEvents (depth : Nat) (frames : List (Frame α)) (resumed : Frame α) : List Event :=
  aborts (frames.take (depth - 1)) ++ [.resumed resumed.label depth]

def forgetEvents (depth : Nat) (frames : List (Frame α)) : List Event :=
  aborts (frames.take depth) ++ [.forgot depth (forgotten depth frames)]

def giveUpEvents (frames : List (Frame α)) : List Event := .gaveUp frames.length :: aborts frames

def failEvents (code : Code) (frames : List (Frame α)) : List Event :=
  .failed code frames.length :: aborts frames

end Nexting

end Intercal
