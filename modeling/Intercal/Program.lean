import Intercal.Diagnostic
import Intercal.Statement

namespace Intercal

/-- Why a program is refused. Statements are named by their position. -/
inductive Rejection where
  | labelOutOfRange (s : Statement) (label : Nat)
  | labelRepeated (s : Statement) (label : Nat) (first : Nat)
  | rude (percent : Nat)
  | obsequious (percent : Nat)
  | noTarget (s : Statement) (target : Nat)
  | targetTaken (s : Statement) (target : Nat) (first : Nat)

namespace Rejection

def atStatement (code : Code) (label : Nat) (s : Statement) (note : Option String) : Diagnostic :=
  { Diagnostic.of .compile code (Label.writeRaw label) with
    location := some ⟨s.position.line, s.position.column, none⟩
    source := some s.text
    note }

def manners (code : Code) (percent : Nat) (help : String) : Diagnostic :=
  { Diagnostic.of .compile code "" with
    note := some (toString percent ++ "% of statements say PLEASE")
    help := some help }

def diagnostic : Rejection → Diagnostic
  | .labelOutOfRange s n => atStatement .e197 n s none
  | .labelRepeated s n first => atStatement .e182 n s ("first defined by statement " ++ toString (first + 1))
  | .rude percent => manners .e079 percent "say PLEASE more often"
  | .obsequious percent => manners .e099 percent "say PLEASE less often"
  | .noTarget s n => atStatement .e444 n s none
  | .targetTaken s n first =>
    atStatement .e555 n s ("statement " ++ toString (first + 1) ++ " already comes from " ++ Label.writeRaw n)

end Rejection

def positionOf? (statements : List Statement) (label : Nat) : Option Nat :=
  statements.findIdx? (·.header.label == some label)

def checkLabels (seen : List (Nat × Nat)) (i : Nat) : List Statement → Except Rejection Unit
  | [] => .ok ()
  | s :: rest =>
    match s.header.label with
    | none => checkLabels seen (i + 1) rest
    | some n =>
      if (Label.ofNat? n).isNone then .error (.labelOutOfRange s n)
      else match seen.lookup n with
        | some first => .error (.labelRepeated s n first)
        | none => checkLabels ((n, i) :: seen) (i + 1) rest

def politeness (statements : List Statement) : Nat :=
  statements.countP (·.header.please) * 100 / statements.length

/-- More than three statements must say `PLEASE` often enough, and not too often. -/
def checkManners (statements : List Statement) : Except Rejection Unit :=
  let percent := politeness statements
  if statements.length ≤ 3 then .ok ()
  else if percent < 20 then .error (.rude percent)
  else if percent > 34 then .error (.obsequious percent)
  else .ok ()

/-- Goes through the statements from position `i` on. `claims` pairs the position of each target claimed
so far with the position of the `COME FROM` that claims it. -/
def claimTargets (all : List Statement) (claims : List (Nat × Nat)) (i : Nat) :
    List Statement → Except Rejection (List (Nat × Nat))
  | [] => .ok claims
  | s :: rest =>
    match s.body with
    | .comeFrom n =>
      match positionOf? all n with
      | none => .error (.noTarget s n)
      | some target =>
        match claims.lookup target with
        | some first => .error (.targetTaken s n first)
        | none => claimTargets all ((target, i) :: claims) (i + 1) rest
    | _ => claimTargets all claims (i + 1) rest

def abstentions (statements : List Statement) : List Abstention :=
  statements.filterMap fun s =>
    match s.body with
    | .abstain t => some t
    | _ => none

def Abstention.names (t : Abstention) (s : Statement) : Bool :=
  match t with
  | .label n => s.header.label == some n
  | .gerunds gs => s.body.gerund?.any gs.contains

/-- Whether a statement can ever be abstained from: it says `NOT`, or an `ABSTAIN` names it. -/
def needsSlot (ts : List Abstention) (s : Statement) : Bool :=
  !s.header.enabled || ts.any (·.names s)

def assignSlots (ts : List Abstention) (next : Nat) : List Statement → List (Option Nat)
  | [] => []
  | s :: rest =>
    if needsSlot ts s then some next :: assignSlots ts (next + 1) rest
    else none :: assignSlots ts next rest

/-- A checked program: for each statement its abstain slot, if it can ever be abstained from, and the position of
the `COME FROM` aimed at it. -/
structure Program where
  statements : List Statement
  slots : List (Option Nat)
  trapdoors : List (Option Nat)

namespace Program

def size (p : Program) : Nat := p.statements.length

def position? (p : Program) (label : Nat) : Option Nat := positionOf? p.statements label

def slot? (p : Program) (i : Nat) : Option Nat := p.slots.getD i none

def slotCount (p : Program) : Nat := p.slots.countP (·.isSome)

def labels (p : Program) : List (Label × Nat) :=
  p.statements.zipIdx.filterMap fun (s, i) => (s.header.label.bind Label.ofNat?).map (·, i)

def members (p : Program) (g : Gerund) : List Nat :=
  p.statements.zipIdx.filterMap fun (s, i) => if s.body.gerund? = some g then some i else none

def analyze (polite : Bool) (statements : List Statement) : Except Rejection Program := do
  checkLabels [] 0 statements
  if polite then checkManners statements
  let claims ← claimTargets statements [] 0 statements
  return {
    statements
    slots := assignSlots (abstentions statements) 0 statements
    trapdoors := (List.range statements.length).map fun i => claims.lookup i }

end Program

end Intercal
