import Intercal.Event
import Intercal.SystemLibrary
import Intercal.Text.Quoted

namespace Intercal

namespace Host

/-- How a routine of the host leaves: back to the statement that called it, perhaps after it made the program forget or
give up, or with a diagnostic. -/
inductive Reply where
  | resumed
  | forgot (depth : Nat)
  | gaveUp
  | failed (d : Diagnostic)

end Host

abbrev Host := Label → Action Host.Reply

/-- What stands behind the exports of a component. Libraries are named by their number. -/
inductive Component.Body where
  | system
  | library (number : Nat)
  | host (routines : Host)

structure Component where
  name : String
  exports : List Label
  body : Component.Body

namespace Component

def system : Component :=
  ⟨SystemLibrary.name, SystemLibrary.routines.filterMap Label.ofNat?, .system⟩

end Component

structure Linkage where
  owners : Table Label Component := .empty
  components : List Component := []

namespace Linkage

def empty : Linkage := {}

def owner? (k : Linkage) (l : Label) : Option Component := k.owners.get? l

def labels (k : Linkage) : List Label :=
  (k.owners.entries.map (·.1)).mergeSort fun a b => a.value ≤ b.value

def size (k : Linkage) : Nat := k.owners.entries.length

/-- Claims labels for a component, counts those that were free and tells which ones were taken. -/
def claim (c : Component) (owners : Table Label Component) :
    List Label → Table Label Component × Nat × List Event
  | [] => (owners, 0, [])
  | l :: ls =>
    match owners.get? l with
    | some first =>
      let (owners, owned, events) := claim c owners ls
      (owners, owned, .alreadyLinked l first.name c.name :: events)
    | none =>
      let (owners, owned, events) := claim c (owners.insert l c) ls
      (owners, owned + 1, events)

def gain (k : Linkage) (c : Component) : Nat := (claim c k.owners c.exports).2.1

def link (k : Linkage) (c : Component) : Linkage × List Event :=
  let (owners, owned, events) := claim c k.owners c.exports
  (⟨owners, k.components ++ [c]⟩, events ++ [.linked c.name owned])

def describe (k : Linkage) : String :=
  "Linkage \x7b components: [" ++ ", ".intercalate (k.components.map fun c => Text.quoted c.name) ++
    "], labels: " ++ toString k.size ++ " \x7d"

end Linkage

structure Part where
  chunk : Chunk
  linkage : Linkage

instance : Inhabited Part := ⟨default, .empty⟩

def Part.component (p : Part) (number : Nat) : Component :=
  ⟨p.chunk.name, p.chunk.exports, .library number⟩

end Intercal
