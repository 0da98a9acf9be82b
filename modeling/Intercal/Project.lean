import Intercal.Loader
import Intercal.Machine

namespace Intercal

/-- `switches` has an entry for each library. -/
structure Project where
  options : Options
  linkage : Linkage := .empty
  loader : Loader
  switches : Array Switches := #[]

namespace Project

def ofOptions (options : Options) : Project :=
  let l : Loader := {}
  { options, loader := { l with searchPaths := l.searchPaths ++ options.searchPaths } }

def link (p : Project) (c : Component) : Project × List Event :=
  let (linkage, events) := p.linkage.link c
  ({ p with linkage }, events)

def visible (p : Project) : Linkage × List Event :=
  if p.options.systemLibrary then p.linkage.link .system else (p.linkage, [])

variable {m : Type → Type} [Monad m]

/-- Loads a library, which sees what was linked before it and the system library, and links it. -/
def loadLibrary (disk : Disk m) (p : Project) (path : String) :
    m (Except Diagnostic (Project × List Event)) := do
  let (visible, before) := p.visible
  match ← p.loader.load disk p.options visible path with
  | .error d => return .error d
  | .ok (number, loader, events) =>
    let c := loader.component number
    let (linkage, linked) := p.linkage.link c
    let switches := if number < p.switches.size then p.switches
      else p.switches.push ⟨(loader.part number).chunk.defaults⟩
    return .ok ({ p with linkage, loader, switches },
      before ++ events ++ linked ++ [.linkedLibrary path (p.linkage.gain c)])

def loadEach (disk : Disk m) (p : Project) : List String → m (Except Diagnostic (Project × List Event))
  | [] => return .ok (p, [])
  | path :: paths => do
    match ← p.loadLibrary disk path with
    | .error d => return .error d
    | .ok (p, events) =>
      match ← loadEach disk p paths with
      | .error d => return .error d
      | .ok (p, more) => return .ok (p, events ++ more)

def loadLibraries (disk : Disk m) (p : Project) (others : List String) :
    m (Except Diagnostic (Project × List Event)) :=
  p.loadEach disk (p.options.libraries ++ others)

/-- Compiles a program. Whatever libraries export, a program exports all its labels. -/
def compile (p : Project) (name : String) (text : List Char) : Except Diagnostic (Chunk × List Event) :=
  let setting := { p.options.setting name p.visible.1.labels with exported := none }
  match Chunk.compile setting (Statement.parse text) with
  | .error r => .error (r.diagnostic.inFile name)
  | .ok compiled => .ok compiled

def compileFile (disk : Disk m) (p : Project) (path : String) : m (Except Diagnostic (Chunk × List Event)) := do
  match ← disk.readText path with
  | .error e => return .error (Loader.unreadable path e)
  | .ok text => return p.compile path text

/-- The machine for a program: its libraries, and the program as the last part. -/
def machine (p : Project) (program : Chunk) (maxDraws : Option Nat) : Machine where
  parts := p.loader.libraries.push ⟨program, p.visible.1⟩
  maxDepth := p.options.maxDepth
  maxDraws

def start (p : Project) (program : Chunk) (store : Store) : Machine.State where
  site := ⟨p.loader.libraries.size, 0⟩
  switches := p.switches.push ⟨program.defaults⟩
  store

def after (p : Project) (s : Machine.State) : Project :=
  { p with switches := s.switches.take p.switches.size }

def run (p : Project) (program : Chunk) (store : Store) (maxDraws : Nat) : Machine.Turn × Array Event :=
  let m := p.machine program maxDraws
  m.run p.visible.2.toArray (m.horizon maxDraws) (p.start program store)

end Project

end Intercal
