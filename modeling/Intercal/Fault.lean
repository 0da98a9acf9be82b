import Intercal.Diagnostic
import Intercal.Expr

namespace Intercal

inductive Fault where
  | splat (text : String)
  | tooDeep (limit : Nat)
  | lost (label : Nat)
  | unresolved (label : Nat)
  | unset (v : Variable)
  | noDimension (v : Variable)
  | hyperspace (v : Variable)
  | arrayAsValue (v : Variable)
  | tooWide (v : Variable) (value : Word)
  | nothingStashed (v : Variable)
  | mingleTooWide (left right : Word)
  | endOfInput
  | notText
  | notNumber (text : String)
  | rupture (depth pending : Nat)
  | fellOff (size : Nat) (chunk : String)
  | overflow (routine : Nat)
  | crash
  deriving DecidableEq

namespace Fault

def code : Fault → Code
  | .splat _ => .e000
  | .tooDeep _ => .e123
  | .lost _ => .e129
  | .unresolved _ => .e139
  | .unset _ => .e200
  | .noDimension _ => .e240
  | .hyperspace _ | .arrayAsValue _ => .e241
  | .tooWide .. => .e275
  | .nothingStashed _ => .e436
  | .mingleTooWide .. => .e533
  | .endOfInput | .notText => .e562
  | .notNumber _ => .e579
  | .rupture .. => .e632
  | .fellOff .. => .e633
  | .overflow _ => .e1999
  | .crash => .e778

def enclose (s : String) : String := "(" ++ s ++ ")"

def constant (n : Word) : String := "#" ++ toString n.toNat

def detail : Fault → String
  | .splat text => text
  | .tooDeep limit => enclose ("depth " ++ toString limit)
  | .lost n | .unresolved n => Label.writeRaw n
  | .unset v | .noDimension v | .hyperspace v | .nothingStashed v => enclose v.write
  | .arrayAsValue v => enclose (v.write ++ " used as a value")
  | .tooWide v n => enclose (v.write ++ " <- " ++ constant n)
  | .mingleTooWide l r => enclose (constant l ++ " $ " ++ constant r)
  | .endOfInput => "(END OF INPUT)"
  | .notText => "stream did not contain valid UTF-8"
  | .notNumber text => "\"" ++ text ++ "\" ???"
  | .rupture depth pending =>
    enclose ("#" ++ toString depth ++ " with " ++ toString pending ++ " pending")
  | .fellOff .. => ""
  | .overflow routine => "IN " ++ Label.writeRaw routine
  | .crash => "(a unit panicked)"

def phase : Fault → Phase
  | .endOfInput | .notText => .io
  | _ => .runtime

def note? : Fault → Option String
  | .fellOff size chunk => some ("after statement " ++ toString size ++ " of " ++ chunk)
  | _ => none

def diagnostic (f : Fault) : Diagnostic :=
  { Diagnostic.of f.phase f.code f.detail with note := f.note? }

/-- Whether the fault is reported at the statement that raised it. -/
def isLocated : Fault → Bool
  | .fellOff .. | .crash => false
  | _ => true

end Fault

end Intercal
