import Intercal.Disk
import Intercal.Table

namespace Intercal

inductive Files.Node where
  | file (bytes : List UInt8)
  | directory

/-- What stands under each list of names, below one directory that has a name of its own. Above that there is nothing
but directories without other names. -/
structure Files where
  root : String
  nodes : Table (List String) Files.Node := .empty

namespace Files

/-- Where a path leads: above the root, or to what stands under names below it. -/
inductive Place where
  | above
  | below (names : List String)

def node? (fs : Files) : Place → Option Node
  | .above => some .directory
  | .below [] => some .directory
  | .below names => fs.nodes.get? names

def isDirectory (fs : Files) (place : Place) : Bool :=
  match fs.node? place with
  | some .directory => true
  | _ => false

def Place.parent : Place → Place
  | .above => .above
  | .below [] => .above
  | .below names => .below names.dropLast

def nameLimit : Nat := 255

def pathLimit : Nat := 4095

def child (fs : Files) (place : Place) (name : String) : Except Disk.Error Place :=
  if nameLimit < name.utf8ByteSize then .error .nameTooLong
  else match place with
    | .above => .error .notFound
    | .below names =>
      if (fs.nodes.get? (names ++ [name])).isSome then .ok (.below (names ++ [name])) else .error .notFound

def follow (fs : Files) (place : Place) : List String → Except Disk.Error Place
  | [] => .ok place
  | piece :: pieces => do
    if !fs.isDirectory place then .error .notDirectory
    else if piece = "" ∨ piece = "." then fs.follow place pieces
    else if piece = ".." then fs.follow place.parent pieces
    else fs.follow (← fs.child place piece) pieces

/-- A path may also begin with the name of the root, as canonical ones do. -/
def locate (fs : Files) (path : String) : Except Disk.Error Place :=
  if path.toList.contains '\x00' then .error .nulInName
  else if path = "" then .error .notFound
  else if pathLimit < path.utf8ByteSize then .error .nameTooLong
  else
    let pieces := Path.pieces path
    let root := Path.pieces fs.root
    if root.isPrefixOf pieces then fs.follow (.below []) (pieces.drop root.length)
    else fs.follow (if Path.isRelative path then .below [] else .above) pieces

def read (fs : Files) (path : String) : Except Disk.Error (List UInt8) := do
  match fs.node? (← fs.locate path) with
  | some (.file bytes) => .ok bytes
  | some .directory => .error .isDirectory
  | none => .error .notFound

def isFile (fs : Files) (path : String) : Bool := (fs.read path).isOk

def canonical (fs : Files) (path : String) : Except Disk.Error String := do
  match ← fs.locate path with
  | .above => return "/"
  | .below names => return "/".intercalate (fs.root :: names)

def route (path : String) : List String × List (List String) :=
  (Path.pieces path).foldl
    (fun (names, needed) piece =>
      if piece = "" ∨ piece = "." then (names, needed)
      else if piece = ".." then (names.dropLast, needed ++ [names])
      else (names ++ [piece], needed ++ [names]))
    ([], [])

def put (fs : Files) (path : String) (node : Node) : Files :=
  let (names, needed) := route path
  let nodes := needed.foldl (fun nodes names => nodes.insert names .directory) fs.nodes
  { fs with nodes := nodes.insert names node }

def disk (fs : Files) : Disk Id where
  isFile path := fs.isFile path
  canonical path := fs.canonical path
  read path := fs.read path

end Files

end Intercal
