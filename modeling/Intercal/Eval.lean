import Intercal.Bits
import Intercal.Statement
import Intercal.Store.Stream

namespace Intercal

namespace Expr

mutual

/-- Subscripts and operands are evaluated from left to right, and the first fault counts. -/
def eval (s : Store) : Expr → Except Fault Value
  | .constant n wide => .ok ⟨n, wide⟩
  | .var v => do
    let x ← s.read v
    return ⟨x, v.kind = .twoSpot⟩
  | .element a subs => do
    let x ← s.readElement a (← evalAll s subs)
    return ⟨x, a.kind = .hybrid⟩
  | .array v => .error (.arrayAsValue v)
  | .unary op e => return Bits.unary op (← eval s e)
  | .mingle l r => do
    let l ← eval s l
    let r ← eval s r
    return ⟨← Bits.mingle l.bits r.bits, true⟩
  | .select l r => do
    let l ← eval s l
    let r ← eval s r
    return ⟨Bits.select l.bits r.bits, r.wide⟩

def evalAll (s : Store) : List Expr → Except Fault (List Nat)
  | [] => .ok []
  | e :: es => do
    let v ← eval s e
    return v.bits.toNat :: (← evalAll s es)

end

def value (e : Expr) : Action Value := fun s => (e.eval s, s)

def values (es : List Expr) : Action (List Nat) := fun s => (evalAll s es, s)

end Expr

namespace Effect

/-- Carries out an effect, item by item. The value of an assignment comes before the subscripts of its target. -/
def perform : Effect → Action Unit
  | .assign (.scalar v) e => do Store.write v (← e.value).bits
  | .assign (.element a subs) e => do
    let x ← e.value
    Store.writeElement a (← Expr.values subs) x.bits
  | .redimension a dims => do Store.redimension a (← Expr.values dims)
  | .stash vs => vs.forM Store.stash
  | .retrieve vs => vs.forM Store.retrieve
  | .ignore vs => vs.forM Store.ignore
  | .remember vs => vs.forM Store.remember
  | .readOut items => items.forM fun
    | .array v => Store.readOutArray v
    | e => do Store.readOut (← e.value).bits
  | .writeIn vs => vs.forM Store.writeIn

end Effect

end Intercal
