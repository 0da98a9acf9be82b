import Intercal.Linkage
import Intercal.Options
import Intercal.Statement.Parser

namespace Intercal

/-- A library is compiled once, under whichever path it is asked for: `loaded` gives its number by the name of its
file. -/
structure Loader where
  searchPaths : List String := [".", "./lib"]
  libraries : Array Part := #[]
  loaded : List (String × Nat) := []

namespace Loader

variable {m : Type → Type} [Monad m]

def sourceExtension : String := "i"

def unreadable (path : String) (e : Disk.Error) : Diagnostic :=
  .of .io .e777 ("(" ++ path ++ ": " ++ e.message ++ ")")

def firstFile (disk : Disk m) : List String → m (Option String)
  | [] => return none
  | path :: paths => do
    if ← disk.isFile path then return some path
    firstFile disk paths

/-- Finds a library: by its path as it stands, then from each directory to search. -/
def resolve (disk : Disk m) (l : Loader) (path : String) : m (Except Diagnostic String) := do
  if Path.extension? path ≠ some sourceExtension then
    return .error (.of .io .e998 ("(" ++ path ++ ")"))
  let elsewhere := if Path.isRelative path then l.searchPaths.map (Path.join · path) else []
  match ← firstFile disk (path :: elsewhere) with
  | some found => return .ok found
  | none => return .error (.of .io .e777 ("(" ++ path ++ ": not found)"))

def compile (o : Options) (visible : Linkage) (path : String) (text : List Char) :
    Except Diagnostic (Part × List Event) :=
  match Chunk.compile (o.setting path visible.labels) (Statement.parse text) with
  | .error r => .error (r.diagnostic.inFile path)
  | .ok (chunk, events) => .ok (⟨chunk, visible⟩, events ++ [.compiledLibrary path chunk.exports.length])

def load (disk : Disk m) (l : Loader) (o : Options) (visible : Linkage) (name : String) :
    m (Except Diagnostic (Nat × Loader × List Event)) := do
  match ← l.resolve disk name with
  | .error d => return .error d
  | .ok path =>
    match ← disk.canonical path with
    | .error e => return .error (unreadable path e)
    | .ok canonical =>
      match l.loaded.lookup canonical with
      | some number => return .ok (number, l, [.alreadyLoaded canonical])
      | none =>
        match ← disk.readText canonical with
        | .error e => return .error (unreadable path e)
        | .ok text =>
          match compile o visible path text with
          | .error d => return .error d
          | .ok (part, events) =>
            let number := l.libraries.size
            let l := { l with
              libraries := l.libraries.push part
              loaded := l.loaded ++ [(canonical, number)] }
            return .ok (number, l, events)

def part (l : Loader) (number : Nat) : Part := l.libraries.getD number default

def component (l : Loader) (number : Nat) : Component := (l.part number).component number

end Loader

end Intercal
