import Intercal.Expr
import Intercal.Token.Reader

namespace Intercal.Expr

open Reader

def readNumber : Reader Nat := do
  match ← take with
  | .number n => if n ≤ 65535 then pure n else fail
  | _ => fail

def readIndex : Reader Nat := do
  let n ← readNumber
  if n = 0 then fail else pure n

def readVariable : Reader Variable := do
  match ← take with
  | .punctuation c =>
    let kind ← ofOption (Variable.Kind.ofSigil? c)
    let n ← readIndex
    pure ⟨kind, n⟩
  | _ => fail

def readUnary : Reader (Option UnaryOp) := do
  if ← takeIf (.operator .and) then pure (some .and)
  else if ← takeIf (.operator .or) then pure (some .or)
  else if ← takeIf (.operator .xor) then pure (some .xor)
  else pure none

def startsOperand (closer : Option Char) : Option Token.Kind → Bool
  | some (.punctuation c) =>
    c == '#' || (Variable.Kind.ofSigil? c).isSome || ((c == '\'' || c == '"') && closer != some c)
  | _ => false

mutual

/-- An operand, and what a binary operator adds to it: these have no precedence and group to the right. The first
argument bounds the depth; `closer` is the quote that ends the group around the expression. -/
def readExpr : Nat → Option Char → Reader Expr
  | 0, _ => fail
  | n + 1, closer => do
    let left ← readOperand n closer
    if ← takeIf (.operator .mingle) then
      let right ← readExpr n closer
      pure (.mingle left right)
    else if ← takeIf (.operator .select) then
      let right ← readExpr n closer
      pure (.select left right)
    else
      pure left

def readOperand : Nat → Option Char → Reader Expr
  | 0, _ => fail
  | n + 1, closer => do
    match ← take with
    | .punctuation '#' =>
      let op ← readUnary
      let value ← readNumber
      pure (withUnary op (.constant (BitVec.ofNat 32 value) false))
    | .punctuation '\'' => readGroup n '\''
    | .punctuation '"' => readGroup n '"'
    | .punctuation c =>
      let kind ← ofOption (Variable.Kind.ofSigil? c)
      let op ← readUnary
      let number ← readIndex
      let v : Variable := ⟨kind, number⟩
      if !kind.isArray then pure (withUnary op (.var v))
      else if ← takeIf (.word "SUB") then
        let subs ← readSubscripts n closer
        pure (withUnary op (.element v subs))
      else
        pure (withUnary op (.array v))
    | _ => fail

def readGroup : Nat → Char → Reader Expr
  | 0, _ => fail
  | n + 1, quote => do
    let op ← readUnary
    let inner ← readExpr n (some quote)
    if (← take) = .punctuation quote then pure (withUnary op inner) else fail

def readSubscripts : Nat → Option Char → Reader (List Expr)
  | 0, _ => fail
  | n + 1, closer => do
    let e ← readExpr n closer
    if startsOperand closer (← peek) then
      let es ← readSubscripts n closer
      pure (e :: es)
    else
      pure [e]

end

/-- A depth that no expression made of these tokens exceeds. -/
def depthFor (ts : List Token) : Nat := 3 * ts.length + 3

def read : Reader Expr := fun ts => readExpr (depthFor ts) none ts

def readList : Reader (List Expr) := fun ts => readSubscripts (depthFor ts) none ts

end Intercal.Expr
