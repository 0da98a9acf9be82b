import Intercal.Chunk
import Intercal.Diagnostic

namespace Intercal

inductive Event where
  | analyzed (name : String) (statements slots : Nat)
  | splatted (text : String) (line : Nat)
  | lostNext (target line : Nat)
  | optimized (name : String) (folded visited : Nat)
  | alreadyLinked (label : Label) (kept shadowed : String)
  | linked (component : String) (owned : Nat)
  | alreadyLoaded (path : String)
  | compiledLibrary (path : String) (exports : Nat)
  | linkedLibrary (path : String) (owned : Nat)
  | executed (op : Op) (chunk : String) (pc line : Nat)
  | skipped (chunk : String) (pc line : Nat)
  | nextLinked (label : Label) (component : String)
  | cameFrom (origin destination : Nat)
  | next (label : Label) (depth : Nat)
  | resumed (label : Label) (depth : Nat)
  | forgot (requested forgotten : Nat)
  | gaveUp (pending : Nat)
  | failed (code : Code) (pending : Nat)
  | aborted (label : Label)
  | failedLate (code : Code)

namespace Event

def isWarning : Event → Bool
  | .splatted .. | .lostNext .. => true
  | _ => false

def line (report : String) (values : List (String × String)) : String :=
  if values.isEmpty then report
  else report ++ " | " ++ " ".intercalate (values.map fun (name, value) => name ++ "=" ++ value)

def write : Event → String
  | .analyzed name statements slots =>
    line "DEBUG compiler: analyzed program"
      [("name", name), ("statements", toString statements), ("slots", toString slots)]
  | .splatted text n => line ("WARN compiler: splatted statement: " ++ text) [("line", toString n)]
  | .lostNext target n =>
    line ("WARN compiler: " ++ Code.e129.write ++ " " ++ Code.e129.canned ++ " " ++ Label.writeRaw target)
      [("line", toString n)]
  | .optimized name folded visited =>
    line "DEBUG compiler: optimized chunk"
      [("name", name), ("folded", toString folded), ("visited", toString visited)]
  | .alreadyLinked label kept shadowed =>
    line "DEBUG linkage: label already linked"
      [("label", label.write), ("kept", kept), ("shadowed", shadowed)]
  | .linked component owned =>
    line "DEBUG linkage: linked" [("component", component), ("owned", toString owned)]
  | .alreadyLoaded path => line "DEBUG module: library already loaded" [("path", path)]
  | .compiledLibrary path exports =>
    line "DEBUG module: compiled library" [("path", path), ("exports", toString exports)]
  | .linkedLibrary path owned =>
    line "INFO driver: linked library" [("path", path), ("owned", toString owned)]
  | .executed op chunk pc n =>
    line ("TRACE machine: " ++ op.write) [("chunk", chunk), ("pc", toString pc), ("line", toString n)]
  | .skipped chunk pc n =>
    line "TRACE machine: skipped" [("chunk", chunk), ("pc", toString pc), ("line", toString n)]
  | .nextLinked label component =>
    line "DEBUG machine: NEXT into linked component" [("label", label.write), ("component", component)]
  | .cameFrom origin destination =>
    line "DEBUG machine: COME FROM" [("from", toString origin), ("to", toString destination)]
  | .next label depth => line "DEBUG nexting: NEXT" [("label", label.write), ("depth", toString depth)]
  | .resumed label depth =>
    line "DEBUG nexting: RESUME" [("label", label.write), ("depth", toString depth)]
  | .forgot requested forgotten =>
    line "DEBUG nexting: FORGET" [("requested", toString requested), ("forgotten", toString forgotten)]
  | .gaveUp pending => line "DEBUG nexting: GIVE UP" [("pending", toString pending)]
  | .failed code pending =>
    line "DEBUG nexting: unit failed" [("code", code.write), ("pending", toString pending)]
  | .aborted label => line "TRACE nexting: frame aborted" [("label", label.write)]
  | .failedLate code =>
    line "TRACE nexting: failure after the run had ended" [("code", code.write)]

end Event

end Intercal
