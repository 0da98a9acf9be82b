import Intercal.Naming

namespace Intercal

/-- Numbers are words of 32 bits; a short number uses the low 16. -/
abbrev Word := BitVec 32

inductive UnaryOp where
  | and
  | or
  | xor
  deriving DecidableEq

def UnaryOp.symbol : UnaryOp → Char
  | .and => '&'
  | .or => 'V'
  | .xor => '?'

/-- A written constant is short; a wide one comes from folding. An array without subscripts is no value:
only `READ OUT` takes it. -/
inductive Expr where
  | constant (value : Word) (wide : Bool)
  | var (v : Variable)
  | element (array : Variable) (subscripts : List Expr)
  | array (v : Variable)
  | unary (op : UnaryOp) (operand : Expr)
  | mingle (left right : Expr)
  | select (left right : Expr)

namespace Expr

mutual

def write : Expr → String
  | .constant n _ => "#" ++ toString n.toNat
  | .var v | .array v => v.write
  | .element a subs => a.write ++ " SUB" ++ writeSubscripts subs
  | .unary op e => "'" ++ op.symbol.toString ++ e.write ++ "'"
  | .mingle l r => "'" ++ l.write ++ "$" ++ r.write ++ "'"
  | .select l r => "'" ++ l.write ++ "~" ++ r.write ++ "'"

def writeSubscripts : List Expr → String
  | [] => ""
  | e :: es => " " ++ e.write ++ writeSubscripts es

end

def withUnary : Option UnaryOp → Expr → Expr
  | some op, e => .unary op e
  | none, e => e

end Expr

end Intercal
