import Intercal.Chunk.Lower
import Intercal.Disk
import Intercal.Toml

namespace Intercal

structure Options where
  maxDepth : Nat := 80
  optimize : Bool := true
  polite : Bool := true
  systemLibrary : Bool := true
  seed : Option Nat := none
  trace : Bool := false
  exported : Option (List Nat) := none
  libraries : List String := []
  searchPaths : List String := []

namespace Options

def fileName : String := "comefrom.toml"

def naturalOf? : Toml.Scalar → Option Nat
  | .integer (.ofNat n) => some n
  | _ => none

def labelOf? (s : Toml.Scalar) : Option Nat := do
  let n ← naturalOf? s
  if n < 0x100000000 then some n else none

def stringOf? : Toml.Scalar → Option String
  | .string s => some s
  | _ => none

def set? (o : Options) : Toml.Entry → Option Options
  | ("max_nexting_depth", .scalar s) => (naturalOf? s).map fun n => { o with maxDepth := n }
  | ("optimize", .scalar (.boolean b)) => some { o with optimize := b }
  | ("politeness", .scalar (.boolean b)) => some { o with polite := b }
  | ("stdlib", .scalar (.boolean b)) => some { o with systemLibrary := b }
  | ("seed", .scalar s) => (naturalOf? s).map fun n => { o with seed := some n }
  | ("trace", .scalar (.boolean b)) => some { o with trace := b }
  | ("public_labels", .list items) => (items.mapM labelOf?).map fun ns => { o with exported := some ns }
  | ("libraries", .list items) => (items.mapM stringOf?).map fun ps => { o with libraries := ps }
  | ("search_paths", .list items) => (items.mapM stringOf?).map fun ps => { o with searchPaths := ps }
  | _ => none

def ofText? (text : List Char) : Option Options := do
  (← Toml.parse? text).foldlM set? {}

def invalid (detail : String) : Diagnostic := .of .config .e2001 ("(" ++ detail ++ ")")

variable {m : Type → Type} [Monad m]

def load (disk : Disk m) (path : String) : m (Except Diagnostic Options) := do
  match ← disk.readText path with
  | .error e => return .error (invalid (path ++ ": " ++ e.message))
  | .ok text =>
    match ofText? text with
    | some options => return .ok options
    | none => return .error (invalid "no such options")

def discover (disk : Disk m) : Option String → m (Except Diagnostic Options)
  | some path => load disk path
  | none => do if ← disk.isFile fileName then load disk fileName else return .ok {}

def setting (o : Options) (name : String) (linked : List Label) : Setting :=
  { name, linked, optimize := o.optimize, polite := o.polite, exported := o.exported }

end Options

end Intercal
