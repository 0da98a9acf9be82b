import Intercal.Expr
import Intercal.Token

namespace Intercal

inductive Target where
  | scalar (v : Variable)
  | element (array : Variable) (subscripts : List Expr)

inductive Effect where
  | assign (target : Target) (value : Expr)
  | redimension (array : Variable) (dimensions : List Expr)
  | stash (vars : List Variable)
  | retrieve (vars : List Variable)
  | ignore (vars : List Variable)
  | remember (vars : List Variable)
  | readOut (items : List Expr)
  | writeIn (vars : List Variable)

inductive Gerund where
  | calculating
  | nexting
  | resuming
  | forgetting
  | abstaining
  | reinstating
  | stashing
  | retrieving
  | ignoring
  | remembering
  | readingOut
  | writingIn
  | comingFrom
  deriving DecidableEq

namespace Gerund

def all : List Gerund :=
  [.calculating, .nexting, .resuming, .forgetting, .abstaining, .reinstating, .stashing, .retrieving,
    .ignoring, .remembering, .readingOut, .writingIn, .comingFrom]

def word : Gerund → String
  | .calculating => "CALCULATING"
  | .nexting => "NEXTING"
  | .resuming => "RESUMING"
  | .forgetting => "FORGETTING"
  | .abstaining => "ABSTAINING"
  | .reinstating => "REINSTATING"
  | .stashing => "STASHING"
  | .retrieving => "RETRIEVING"
  | .ignoring => "IGNORING"
  | .remembering => "REMEMBERING"
  | .readingOut => "READING"
  | .writingIn => "WRITING"
  | .comingFrom => "COMING"

def second? : Gerund → Option String
  | .readingOut => some "OUT"
  | .writingIn => some "IN"
  | .comingFrom => some "FROM"
  | _ => none

def ofWord? (w : String) : Option Gerund := all.find? (·.word == w)

theorem ofWord?_word (g : Gerund) : ofWord? g.word = some g := by cases g <;> decide

end Gerund

/-- What an `ABSTAIN` or a `REINSTATE` names. Labels are kept as written, in range or not. -/
inductive Abstention where
  | label (n : Nat)
  | gerunds (gs : List Gerund)
  deriving DecidableEq

/-- A malformed body is one that could not be read; it fails only if control reaches it. -/
inductive Body where
  | effect (e : Effect)
  | next (target : Nat)
  | resume (depth : Expr)
  | forget (depth : Expr)
  | abstain (target : Abstention)
  | reinstate (target : Abstention)
  | giveUp
  | comeFrom (target : Nat)
  | malformed

def Effect.gerund : Effect → Gerund
  | .assign .. | .redimension .. => .calculating
  | .stash _ => .stashing
  | .retrieve _ => .retrieving
  | .ignore _ => .ignoring
  | .remember _ => .remembering
  | .readOut _ => .readingOut
  | .writeIn _ => .writingIn

def Body.gerund? : Body → Option Gerund
  | .effect e => some e.gerund
  | .next _ => some .nexting
  | .resume _ => some .resuming
  | .forget _ => some .forgetting
  | .abstain _ => some .abstaining
  | .reinstate _ => some .reinstating
  | .comeFrom _ => some .comingFrom
  | .giveUp | .malformed => none

def Body.isMalformed : Body → Bool
  | .malformed => true
  | _ => false

/-- What stands before the body: a label as written, `NOT`, `PLEASE`, and the chance in percent. -/
structure Header where
  label : Option Nat := none
  enabled : Bool := true
  please : Bool := false
  percent : Nat := 100
  deriving DecidableEq

structure Statement where
  index : Nat
  position : Position
  header : Header
  body : Body
  text : String

end Intercal
