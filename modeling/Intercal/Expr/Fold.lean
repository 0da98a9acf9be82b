import Intercal.Bits

namespace Intercal

structure Folded (α : Type) where
  result : α
  folded : Nat
  visited : Nat

namespace Folded

variable {α β : Type}

def map (f : α → β) (x : Folded α) : Folded β := ⟨f x.result, x.folded, x.visited⟩

def both (x : Folded α) (y : Folded β) : Folded (α × β) :=
  ⟨(x.result, y.result), x.folded + y.folded, x.visited + y.visited⟩

def none (a : α) : Folded α := ⟨a, 0, 0⟩

end Folded

namespace Expr

def constant? : Expr → Option Value
  | .constant n wide => some ⟨n, wide⟩
  | _ => none

def ofValue (v : Value) : Expr := .constant v.bits v.wide

/-- The constant that an operator on folded operands stands for. A mingle that would fault stands for none. -/
def reduce? : Expr → Option Value
  | .unary op e => e.constant?.map (Bits.unary op)
  | .mingle l r =>
    match l.constant?, r.constant? with
    | some l, some r => (Bits.mingle? l.bits r.bits).map (⟨·, true⟩)
    | _, _ => none
  | .select l r =>
    match l.constant?, r.constant? with
    | some l, some r => some ⟨Bits.select l.bits r.bits, r.wide⟩
    | _, _ => none
  | _ => none

/-- Counts the visit of a node whose operands are folded, and replaces the node if it can. -/
def reduce (x : Folded Expr) : Folded Expr :=
  match reduce? x.result with
  | some v => ⟨ofValue v, x.folded + 1, x.visited + 1⟩
  | none => ⟨x.result, x.folded, x.visited + 1⟩

mutual

def fold : Expr → Folded Expr
  | .unary op e => reduce ((fold e).map (.unary op))
  | .mingle l r => reduce (((fold l).both (fold r)).map fun p => .mingle p.1 p.2)
  | .select l r => reduce (((fold l).both (fold r)).map fun p => .select p.1 p.2)
  | .element a subs => reduce ((foldAll subs).map (.element a))
  | .constant n wide => reduce (.none (.constant n wide))
  | .var v => reduce (.none (.var v))
  | .array v => reduce (.none (.array v))

def foldAll : List Expr → Folded (List Expr)
  | [] => .none []
  | e :: es => ((fold e).both (foldAll es)).map fun p => p.1 :: p.2

end

end Expr

end Intercal
