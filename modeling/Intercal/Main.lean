import Intercal.Command

namespace Intercal.Main

open Command

def diskError : IO.Error → Disk.Error
  | .noFileOrDirectory .. => .notFound
  | .inappropriateType _ 20 _ => .notDirectory
  | .inappropriateType _ 21 _ => .isDirectory
  | .invalidArgument _ 36 _ => .nameTooLong
  | e => .other (toString e)

def readFile (path : String) : IO (Except Disk.Error (List UInt8)) := do
  match ← (IO.FS.readBinFile path).toBaseIO with
  | .ok bytes => return .ok bytes.toList
  | .error e => return .error (diskError e)

def disk : Disk IO where
  isFile path := return (← readFile path).isOk
  canonical path := do
    match ← (IO.FS.realPath path).toBaseIO with
    | .ok found => return .ok found.toString
    | .error e => return .error (diskError e)
  read := readFile

def emit (bytes : Array UInt8) : IO Unit := do
  if !bytes.isEmpty then
    let out ← IO.getStdout
    out.write ⟨bytes⟩
    out.flush

def report (trace : Bool) (events : List Event) : IO Unit :=
  events.forM fun e => if trace || e.isWarning then IO.eprintln e.write else pure ()

partial def fetchLine (line : Array UInt8) : IO (Array UInt8) := do
  match (← (← IO.getStdin).read 1).toList with
  | [] => return line
  | b :: _ => if b == 10 then return line.push b else fetchLine (line.push b)

def complain (d : Diagnostic) : IO Unit := do
  let color := (← IO.getEnv "NO_COLOR").isNone && (← (← IO.getStdout).isTty)
  IO.eprint (d.render color)

def starved : Machine.Ending → Bool
  | .failed d => d.message == Fault.endOfInput.diagnostic.message
  | _ => false

/-- Runs a machine to its end. Input is fetched line by line, when a step fails for want of it. -/
partial def drive (m : Machine) (trace : Bool) (s : Machine.State) : IO Machine.Ending := do
  let (turn, events) := m.step s
  let conclude (t : Machine.State) : IO Machine.State := do
    report trace events
    emit t.store.output
    return { t with store := { t.store with output := #[] } }
  match turn with
  | .going t => drive m trace (← conclude t)
  | .ended e t =>
    if starved e then
      let line ← fetchLine #[]
      if !line.isEmpty then
        let input := s.store.input ++ line.toList
        return ← drive m trace { s with store := { s.store with input } }
    discard (conclude t)
    return e

def seedOf (o : Options) : IO UInt64 := do
  match o.seed with
  | some seed => return UInt64.ofNat seed
  | none => return (← IO.getRandomBytes 8).toUInt64LE!

def run (p : Prepared) : IO UInt32 := do
  let store : Store := { source := ⟨← seedOf p.project.options, 0⟩ }
  let trace := p.project.options.trace
  report trace p.project.visible.2
  match ← drive (p.project.machine p.program none) trace (p.project.start p.program store) with
  | .failed d =>
    complain d
    return 1
  | _ => return 0

def invoke (i : Invocation) : IO UInt32 := do
  match ← i.prepare disk with
  | .error d =>
    complain d
    return 1
  | .ok p =>
    report p.project.options.trace p.events
    match i.verb with
    | .run => run p
    | .check =>
      IO.print (summary p.program)
      return 0
    | .dump =>
      IO.print p.program.listing
      return 0

end Intercal.Main

open Intercal in
def main (arguments : List String) : IO UInt32 := do
  match Command.parse arguments with
  | .invoke i => Main.invoke i
  | .version =>
    IO.print Command.versionLine
    return 0
  | .help topic =>
    IO.print topic.text
    return 0
  | .misuse =>
    IO.eprint Command.Topic.overview.text
    return 2
