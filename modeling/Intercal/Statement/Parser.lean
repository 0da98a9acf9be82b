import Intercal.Expr.Parser
import Intercal.Statement
import Intercal.Token.Lexer

namespace Intercal.Statement

open Reader

def opens (t : Token) : Bool := t.isWord "DO" || t.isWord "PLEASE"

def starts : List Token → Bool
  | [] => false
  | t :: ts =>
    match t.kind with
    | .label _ => ts.head?.any opens
    | _ => opens t

def skipToStart : List Token → List Token
  | [] => []
  | t :: ts => if starts (t :: ts) then t :: ts else skipToStart ts

/-- Reads the qualifiers of a header and tells whether a body may follow. A word that only begins with
`NOT` disables the statement, and no body follows it. -/
def readQualifiers (identified : Bool) (h : Header) : List Token → Header × Bool × List Token
  | [] => (h, identified, [])
  | t :: ts =>
    match t.kind with
    | .word w =>
      if w = "DO" then readQualifiers true h ts
      else if w = "PLEASE" then readQualifiers true { h with please := true } ts
      else if identified && w = "NOT" then readQualifiers identified { h with enabled := false } ts
      else if identified && "NOT".toList.isPrefixOf w.toList then
        ({ h with enabled := false }, false, t :: ts)
      else (h, identified, t :: ts)
    | .punctuation '%' =>
      if identified then
        match ts with
        | ⟨.number n, _⟩ :: rest =>
          if n ≤ 100 then readQualifiers identified { h with percent := n } rest else (h, false, ts)
        | _ => (h, false, ts)
      else (h, identified, t :: ts)
    | _ => (h, identified, t :: ts)

def readHeader : List Token → Header × Bool × List Token
  | ⟨.label n, _⟩ :: ts => readQualifiers false { label := some n } ts
  | ts => readQualifiers false {} ts

def readGerund : Reader Gerund := do
  match ← peek with
  | some (.word w) =>
    let g ← ofOption (Gerund.ofWord? w)
    let _ ← take
    match g.second? with
    | some second => expect (.word second)
    | none => pure ()
    pure g
  | _ => fail

def readAbstention : Reader Abstention := do
  match ← peek with
  | some (.label n) =>
    let _ ← take
    pure (.label n)
  | _ => return .gerunds (← separated (.punctuation '+') readGerund)

def readVariables : Reader (List Variable) := separated (.punctuation '+') Expr.readVariable

def readCalculation : Reader Effect := do
  let v ← Expr.readVariable
  if ← takeIf (.word "SUB") then
    let subs ← Expr.readList
    if (← take) = .gets then
      let value ← Expr.read
      if v.kind.isArray then pure (.assign (.element v subs) value) else fail
    else
      fail
  else if (← take) = .gets then
    if v.kind.isArray then
      return .redimension v (← separated (.word "BY") Expr.read)
    else
      return .assign (.scalar v) (← Expr.read)
  else
    fail

def readVerb (verb : String) : Reader Body :=
  match verb with
  | "RESUME" => return .resume (← Expr.read)
  | "FORGET" => return .forget (← Expr.read)
  | "ABSTAIN" => do
    expect (.word "FROM")
    return .abstain (← readAbstention)
  | "REINSTATE" => return .reinstate (← readAbstention)
  | "STASH" => return .effect (.stash (← readVariables))
  | "RETRIEVE" => return .effect (.retrieve (← readVariables))
  | "IGNORE" => return .effect (.ignore (← readVariables))
  | "REMEMBER" => return .effect (.remember (← readVariables))
  | "READ" => do
    expect (.word "OUT")
    return .effect (.readOut (← separated (.punctuation '+') Expr.read))
  | "WRITE" => do
    expect (.word "IN")
    return .effect (.writeIn (← readVariables))
  | "GIVE" => do
    expect (.word "UP")
    return .giveUp
  | "COME" => do
    expect (.word "FROM")
    match ← take with
    | .label n => pure (.comeFrom n)
    | _ => fail
  | _ => fail

def readBody : Reader Body := do
  match ← peek with
  | some (.label n) =>
    let _ ← take
    expect (.word "NEXT")
    return .next n
  | some (.punctuation c) =>
    if (Variable.Kind.ofSigil? c).isSome then return .effect (← readCalculation) else fail
  | some (.word w) =>
    let _ ← take
    readVerb w
  | _ => fail

/-- Reads the statement at the head of the tokens: its header, its body, and the tokens after it. A body that cannot be
read is malformed, and reading goes on at the next start after the place where it gave up. -/
def readStatement (ts : List Token) : Header × Body × List Token :=
  let (header, identified, afterHeader) := readHeader ts
  let (body?, stopped) := if identified then readBody afterHeader else (none, afterHeader)
  match body? with
  | some body =>
    if stopped.isEmpty || starts stopped then (header, body, stopped)
    else (header, .malformed, skipToStart stopped)
  | none =>
    let from' := if stopped.length = ts.length then ts.drop 1 else stopped
    (header, .malformed, skipToStart from')

def splitOctets (n : Nat) : List Char → List Char × List Char
  | [] => ([], [])
  | c :: cs =>
    if c.utf8Size ≤ n then
      let (front, back) := splitOctets (n - c.utf8Size) cs
      (c :: front, back)
    else
      ([], c :: cs)

/-- Reads all statements. The first `covered` tokens belong to the statement read last; `source` is the text
from the next statement on, and the whole text ends at offset `stop`. -/
def readAll (stop : Nat) (covered index : Nat) (source : List Char) : List Token → List Statement
  | [] => []
  | t :: ts =>
    match covered with
    | k + 1 => readAll stop k index source ts
    | 0 =>
      let (header, body, rest) := readStatement (t :: ts)
      let finish := match rest with
        | [] => stop
        | next :: _ => next.position.offset
      let (slice, source) := splitOctets (finish - t.position.offset) source
      { index, position := t.position, header, body, text := String.ofList (Text.trim slice) } ::
        readAll stop (ts.length - rest.length) (index + 1) source ts

def parse (source : List Char) : List Statement :=
  let (tokens, stop) := Token.tokenize source
  readAll stop.offset 0 0 (Text.trimStart source) tokens

def parseExpr? (text : List Char) : Option Expr :=
  match parse ("DO :1 <- ".toList ++ text) with
  | [{ body := .effect (.assign _ value), .. }] => some value
  | _ => none

end Intercal.Statement
