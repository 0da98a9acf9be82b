import Intercal.Token

namespace Intercal

/-- A reader that fails still says how far it came. -/
def Reader (α : Type) : Type := List Token → Option α × List Token

namespace Reader

variable {α β : Type}

instance : Monad Reader where
  pure a := fun ts => (some a, ts)
  bind x f := fun ts =>
    match x ts with
    | (some a, rest) => f a rest
    | (none, rest) => (none, rest)

def fail : Reader α := fun ts => (none, ts)

def take : Reader Token.Kind
  | [] => (none, [])
  | t :: ts => (some t.kind, ts)

def peek : Reader (Option Token.Kind) := fun ts => (some (ts.head?.map (·.kind)), ts)

def takeIf (k : Token.Kind) : Reader Bool
  | [] => (some false, [])
  | t :: ts => if t.kind = k then (some true, ts) else (some false, t :: ts)

def expect (k : Token.Kind) : Reader Unit := do
  if ← takeIf k then pure () else fail

def ofOption : Option α → Reader α
  | some a => pure a
  | none => fail

/-- What follows the first item of a list: items, each after a separator. The first argument bounds
their number. -/
def moreItems (sep : Token.Kind) (item : Reader α) : Nat → Reader (List α)
  | 0 => pure []
  | n + 1 => do
    if ← takeIf sep then
      let a ← item
      let as ← moreItems sep item n
      pure (a :: as)
    else
      pure []

def separated (sep : Token.Kind) (item : Reader α) : Reader (List α) := do
  let a ← item
  let as ← fun ts => moreItems sep item ts.length ts
  pure (a :: as)

theorem bind_eq (x : Reader α) (f : α → Reader β) (ts : List Token) :
    (x >>= f) ts = match x ts with
      | (some a, rest) => f a rest
      | (none, rest) => (none, rest) := rfl

theorem pure_eq (a : α) (ts : List Token) : (pure a : Reader α) ts = (some a, ts) := rfl

end Reader

end Intercal
