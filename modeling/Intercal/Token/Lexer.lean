import Intercal.Text
import Intercal.Token

namespace Intercal.Token

open Text

/-- A parenthesis that encloses digits only is a label; otherwise it stands for itself. -/
def labelLexeme (cs : List Char) : List Kind × Nat :=
  let digits := cs.takeWhile Char.isDigit
  if !digits.isEmpty && (cs.drop digits.length).head? == some ')' then
    ([.label (saturated digits)], digits.length + 2)
  else
    ([.punctuation '('], 1)

def contracts : List Char → Bool
  | '\'' :: c :: _ => c == 'T' || c == 't'
  | _ => false

def wordKind (letters : List Char) : Kind :=
  if letters = ['V'] then .operator .or else .word (String.ofList letters)

/-- A run of letters, in upper case. After an `N` it takes in a following `'T`, and the `N` with it stands
for `NOT`. -/
def wordLexeme (cs : List Char) : List Kind × Nat :=
  let letters := (cs.takeWhile Char.isAlpha).map Char.toUpper
  if letters.getLast? == some 'N' && contracts (cs.drop letters.length) then
    let stem := letters.dropLast
    ((if stem.isEmpty then [] else [.word (String.ofList stem)]) ++ [.word "NOT"], letters.length + 2)
  else
    ([wordKind letters], letters.length)

def lexeme (c : Char) (cs : List Char) : List Kind × Nat :=
  if c.isDigit then
    let digits := (c :: cs).takeWhile Char.isDigit
    ([.number (saturated digits)], digits.length)
  else if c.isAlpha then wordLexeme (c :: cs)
  else match c with
    | '(' => labelLexeme cs
    | '<' => if cs.head? == some '-' then ([.gets], 2) else ([.punctuation '<'], 1)
    | '!' => ([.punctuation '\'', .punctuation '.'], 1)
    | '$' | '¢' => ([.operator .mingle], 1)
    | '~' => ([.operator .select], 1)
    | '&' => ([.operator .and], 1)
    | '?' => ([.operator .xor], 1)
    | c => ([.punctuation c], 1)

/-- Reads tokens from place `p` on, and gives the place where the text ends. The first `covered` characters
belong to the lexeme read last. -/
def scan (covered : Nat) (p : Position) : List Char → List Token × Position
  | [] => ([], p)
  | c :: cs =>
    match covered with
    | k + 1 => scan k (p.advance c) cs
    | 0 =>
      if isBlank c then scan 0 (p.advance c) cs
      else
        let l := lexeme c cs
        let rest := scan (l.2 - 1) (p.advance c) cs
        (l.1.map (⟨·, p⟩) ++ rest.1, rest.2)

def tokenize (source : List Char) : List Token × Position := scan 0 .start source

end Intercal.Token
