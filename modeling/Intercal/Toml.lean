namespace Intercal.Toml

inductive Scalar where
  | integer (n : Int)
  | boolean (b : Bool)
  | string (s : String)

inductive Value where
  | scalar (s : Scalar)
  | list (items : List Scalar)

abbrev Entry := String × Value

def isBlank (c : Char) : Bool := c == ' ' || c == '\t'

def isPlain (c : Char) : Bool := c == '\t' || (32 ≤ c.toNat && c.toNat != 127)

def isBare (c : Char) : Bool := c.isAlphanum || c == '_' || c == '-'

def skipBlanks (cs : List Char) : List Char := cs.dropWhile isBlank

def newline? : List Char → Option (List Char)
  | '\n' :: cs => some cs
  | '\r' :: '\n' :: cs => some cs
  | _ => none

def skipComment : List Char → List Char
  | '#' :: cs => cs.dropWhile isPlain
  | cs => cs

def digitValue (c : Char) : Nat :=
  if c.isDigit then c.toNat - '0'.toNat
  else if c.isLower then c.toNat - 'a'.toNat + 10
  else if c.isUpper then c.toNat - 'A'.toNat + 10
  else 36

def digits? (base : Nat) (value : Nat) : List Char → Option Nat
  | [] => none
  | [c] => if digitValue c < base then some (value * base + digitValue c) else none
  | c :: '_' :: cs => if digitValue c < base then digits? base (value * base + digitValue c) cs else none
  | c :: cs => if digitValue c < base then digits? base (value * base + digitValue c) cs else none

def decimal? : List Char → Option Nat
  | ['0'] => some 0
  | '0' :: _ => none
  | cs => digits? 10 0 cs

def magnitude? : List Char → Option Nat
  | '0' :: 'x' :: cs => digits? 16 0 cs
  | '0' :: 'o' :: cs => digits? 8 0 cs
  | '0' :: 'b' :: cs => digits? 2 0 cs
  | cs => decimal? cs

/-- Integers have 64 bits with a sign, and only decimal ones may be written with one. -/
def integer? (cs : List Char) : Option Int := do
  let n : Int ← match cs with
    | '+' :: cs => (decimal? cs).map Int.ofNat
    | '-' :: cs => (decimal? cs).map fun n => -Int.ofNat n
    | cs => (magnitude? cs).map Int.ofNat
  if -0x8000000000000000 ≤ n ∧ n < 0x8000000000000000 then some n else none

def unicode? (cs : List Char) : Option Char := do
  let n ← if cs.all (fun c => digitValue c < 16) then digits? 16 0 cs else none
  if h : n.isValidChar then some (Char.ofNatAux n h) else none

def escape? : Char → Option Char
  | 'b' => some '\x08'
  | 't' => some '\t'
  | 'n' => some '\n'
  | 'f' => some '\x0c'
  | 'r' => some '\r'
  | '"' => some '"'
  | '\\' => some '\\'
  | _ => none

def escaped? : List Char → Option (Char × List Char)
  | 'u' :: cs => if 4 ≤ cs.length then (unicode? (cs.take 4)).map (·, cs.drop 4) else none
  | 'U' :: cs => if 8 ≤ cs.length then (unicode? (cs.take 8)).map (·, cs.drop 8) else none
  | c :: cs => (escape? c).map (·, cs)
  | [] => none

def skipSpace : List Char → List Char
  | '\n' :: cs => skipSpace cs
  | '\r' :: '\n' :: cs => skipSpace cs
  | c :: cs => if isBlank c then skipSpace cs else c :: cs
  | [] => []

def lineEnding? (cs : List Char) : Option (List Char) :=
  (newline? (skipBlanks cs)).map skipSpace

/-- The rest of a string in quotes, from inside it. The first argument bounds its length. -/
def basic : Nat → List Char → Option (List Char × List Char)
  | 0, _ => none
  | n + 1, cs =>
    match cs with
    | [] => none
    | '"' :: cs => some ([], cs)
    | '\\' :: cs => do
      let (c, cs) ← escaped? cs
      (basic n cs).map fun (s, rest) => (c :: s, rest)
    | c :: cs => if isPlain c then (basic n cs).map fun (s, rest) => (c :: s, rest) else none

def literal : List Char → Option (List Char × List Char)
  | [] => none
  | '\'' :: cs => some ([], cs)
  | c :: cs => if isPlain c then (literal cs).map fun (s, rest) => (c :: s, rest) else none

def closing? (quote : Char) (cs : List Char) : Option (List Char × List Char) :=
  let quotes := (cs.takeWhile (· == quote)).length
  if quotes < 3 then none
  else
    let inside := min (quotes - 3) 2
    some (List.replicate inside quote, cs.drop (inside + 3))

def multiline (quote : Char) (escapes : Bool) : Nat → List Char → Option (List Char × List Char)
  | 0, _ => none
  | n + 1, cs =>
    match closing? quote cs, newline? cs with
    | some closed, _ => some closed
    | none, some cs => (multiline quote escapes n cs).map fun (s, rest) => ('\n' :: s, rest)
    | none, none =>
      match cs with
      | [] => none
      | c :: cs =>
        if c == '\\' && escapes then
          match lineEnding? cs with
          | some cs => multiline quote escapes n cs
          | none => do
            let (c, cs) ← escaped? cs
            (multiline quote escapes n cs).map fun (s, rest) => (c :: s, rest)
        else if isPlain c then (multiline quote escapes n cs).map fun (s, rest) => (c :: s, rest)
        else none

/-- The end of the line after the opening quotes does not count. -/
def multilineString? (quote : Char) (escapes : Bool) (cs : List Char) : Option (List Char × List Char) :=
  let cs := (newline? cs).getD cs
  multiline quote escapes (cs.length + 1) cs

def string? : List Char → Option (List Char × List Char)
  | '"' :: '"' :: '"' :: cs => multilineString? '"' true cs
  | '\'' :: '\'' :: '\'' :: cs => multilineString? '\'' false cs
  | '"' :: cs => basic (cs.length + 1) cs
  | '\'' :: cs => literal cs
  | _ => none

def bareScalar? (word : List Char) : Option Scalar :=
  match String.ofList word with
  | "true" => some (.boolean true)
  | "false" => some (.boolean false)
  | _ => (integer? word).map .integer

def scalar? (cs : List Char) : Option (Scalar × List Char) :=
  match cs.head? with
  | some '"' | some '\'' => (string? cs).map fun (s, rest) => (.string (String.ofList s), rest)
  | _ =>
    let isWord (c : Char) : Bool := isBare c || c == '+'
    (bareScalar? (cs.takeWhile isWord)).map (·, cs.dropWhile isWord)

def skipLines : Nat → List Char → List Char
  | 0, cs => cs
  | n + 1, cs =>
    let cs := skipComment (skipBlanks cs)
    match newline? cs with
    | some cs => skipLines n cs
    | none => cs

def skipAll (cs : List Char) : List Char := skipLines cs.length cs

def items? : Nat → List Char → Option (List Scalar × List Char)
  | 0, _ => none
  | n + 1, cs =>
    match skipAll cs with
    | ']' :: cs => some ([], cs)
    | cs => do
      let (item, cs) ← scalar? cs
      match skipAll cs with
      | ',' :: cs => (items? n cs).map fun (items, rest) => (item :: items, rest)
      | ']' :: cs => some ([item], cs)
      | _ => none

def value? : List Char → Option (Value × List Char)
  | '[' :: cs => (items? (cs.length + 1) cs).map fun (items, rest) => (.list items, rest)
  | cs => (scalar? cs).map fun (s, rest) => (.scalar s, rest)

def key? (cs : List Char) : Option (String × List Char) :=
  match cs with
  | '"' :: cs => (basic (cs.length + 1) cs).map fun (s, rest) => (String.ofList s, rest)
  | '\'' :: cs => (literal cs).map fun (s, rest) => (String.ofList s, rest)
  | cs =>
    let word := cs.takeWhile isBare
    if word.isEmpty then none else some (String.ofList word, cs.dropWhile isBare)

def entry? (cs : List Char) : Option (Entry × List Char) := do
  let (key, cs) ← key? cs
  match skipBlanks cs with
  | '=' :: cs => do
    let (value, cs) ← value? (skipBlanks cs)
    return ((key, value), cs)
  | _ => none

def entries? : Nat → List Char → Option (List Entry)
  | 0, _ => none
  | n + 1, cs =>
    match skipAll cs with
    | [] => some []
    | cs => do
      let (entry, cs) ← entry? cs
      let cs := skipComment (skipBlanks cs)
      match cs, newline? cs with
      | [], _ => return [entry]
      | _, some cs => return entry :: (← entries? n cs)
      | _, none => none

/-- Reads a text. A mark of byte order at its start does not count, and no key may occur twice. -/
def parse? (text : List Char) : Option (List Entry) := do
  let cs := match text with
    | '\ufeff' :: cs => cs
    | cs => cs
  let entries ← entries? (cs.length + 1) cs
  if (entries.map (·.1)).Nodup then some entries else none

end Intercal.Toml
