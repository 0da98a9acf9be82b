namespace Intercal

/-- A place in a text: line and column count from one, the offset counts UTF-8 octets from zero. -/
structure Position where
  line : Nat
  column : Nat
  offset : Nat
  deriving DecidableEq

namespace Position

def start : Position := ⟨1, 1, 0⟩

def advance (p : Position) (c : Char) : Position :=
  if c = '\n' then ⟨p.line + 1, 1, p.offset + c.utf8Size⟩
  else ⟨p.line, p.column + 1, p.offset + c.utf8Size⟩

def after (p : Position) (cs : List Char) : Position := cs.foldl advance p

end Position

inductive Operator where
  | mingle
  | select
  | and
  | or
  | xor
  deriving DecidableEq

def Operator.symbol : Operator → Char
  | .mingle => '$'
  | .select => '~'
  | .and => '&'
  | .or => 'V'
  | .xor => '?'

/-- What a token is. Words are upper case; numbers and labels are held at the greatest 32-bit number. -/
inductive Token.Kind where
  | word (text : String)
  | label (value : Nat)
  | number (value : Nat)
  | gets
  | operator (op : Operator)
  | punctuation (c : Char)
  deriving DecidableEq

structure Token where
  kind : Token.Kind
  position : Position
  deriving DecidableEq

def Token.isWord (t : Token) (text : String) : Bool := t.kind == .word text

end Intercal
