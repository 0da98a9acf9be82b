namespace Intercal.Text

/-- The characters with the Unicode property `White_Space`. -/
def isBlank (c : Char) : Bool :=
  let n := c.toNat
  (9 ≤ n && n ≤ 13) || n == 0x20 || n == 0x85 || n == 0xA0 || n == 0x1680 ||
    (0x2000 ≤ n && n ≤ 0x200A) || n == 0x2028 || n == 0x2029 || n == 0x202F || n == 0x205F ||
    n == 0x3000

def trimStart (cs : List Char) : List Char := cs.dropWhile isBlank

def trimEnd (cs : List Char) : List Char := (cs.reverse.dropWhile isBlank).reverse

def trim (cs : List Char) : List Char := trimEnd (trimStart cs)

theorem trimStart_cons_of_blank {c : Char} (h : isBlank c = true) (cs : List Char) :
    trimStart (c :: cs) = trimStart cs := by
  simp [trimStart, h]

theorem trimStart_cons_of_not_blank {c : Char} (h : isBlank c = false) (cs : List Char) :
    trimStart (c :: cs) = c :: cs := by
  simp [trimStart, h]

def maxWord : Nat := 4294967295

def digitsValue (cs : List Char) : Nat :=
  cs.foldl (fun n c => n * 10 + (c.toNat - '0'.toNat)) 0

def saturated (cs : List Char) : Nat := min (digitsValue cs) maxWord

/-- An optional plus sign and at least one digit, of a value that fits 32 bits; nothing else. -/
def readWord? (cs : List Char) : Option Nat :=
  let digits := match cs with
    | '+' :: rest => rest
    | _ => cs
  if !digits.isEmpty && digits.all Char.isDigit && digitsValue digits ≤ maxWord then
    some (digitsValue digits)
  else
    none

def padLeft (width : Nat) (s : String) : String :=
  String.ofList (List.replicate (width - s.length) ' ') ++ s

namespace Utf8

/-- What a lead octet announces: how many octets follow, and the range of the first of them. -/
structure Lead where
  follow : Nat
  low : UInt8
  high : UInt8

def lead? (b : UInt8) : Option Lead :=
  if b < 0x80 then some ⟨0, 0x80, 0xBF⟩
  else if b < 0xC2 then none
  else if b < 0xE0 then some ⟨1, 0x80, 0xBF⟩
  else if b == 0xE0 then some ⟨2, 0xA0, 0xBF⟩
  else if b == 0xED then some ⟨2, 0x80, 0x9F⟩
  else if b < 0xF0 then some ⟨2, 0x80, 0xBF⟩
  else if b == 0xF0 then some ⟨3, 0x90, 0xBF⟩
  else if b < 0xF4 then some ⟨3, 0x80, 0xBF⟩
  else if b == 0xF4 then some ⟨3, 0x80, 0x8F⟩
  else none

def tail (l : Lead) (bs : List UInt8) : List UInt8 :=
  match l.follow, bs with
  | n + 1, b :: rest =>
    if l.low ≤ b && b ≤ l.high then b :: (rest.take n).takeWhile (fun b => 0x80 ≤ b && b ≤ 0xBF)
    else []
  | _, _ => []

def codePoint (b : UInt8) (rest : List UInt8) : Nat :=
  let bits := match rest.length with
    | 0 => b.toNat
    | 1 => b.toNat - 0xC0
    | 2 => b.toNat - 0xE0
    | _ => b.toNat - 0xF0
  rest.foldl (fun n b => n * 64 + (b.toNat - 0x80)) bits

/-- The character or the fault at the head of a non-empty octet string, and how many octets it takes. -/
def head (b : UInt8) (bs : List UInt8) : Option Char × Nat :=
  match lead? b with
  | none => (none, 1)
  | some l =>
    let rest := tail l bs
    if rest.length = l.follow then (some (Char.ofNat (codePoint b rest)), rest.length + 1)
    else (none, rest.length + 1)

/-- Reads the octets one character or fault at a time; `skip` octets of the last one are still to pass. -/
def readFrom (skip : Nat) : List UInt8 → List (Option Char)
  | [] => []
  | b :: bs =>
    match skip with
    | k + 1 => readFrom k bs
    | 0 => (head b bs).1 :: readFrom ((head b bs).2 - 1) bs

def read (bs : List UInt8) : List (Option Char) := readFrom 0 bs

def decode? (bs : List UInt8) : Option (List Char) := (read bs).mapM id

def decodeLossy (bs : List UInt8) : List Char := (read bs).map (·.getD (Char.ofNat 0xFFFD))

def encodeChar (c : Char) : List UInt8 := String.utf8EncodeChar c

def encode (cs : List Char) : List UInt8 := cs.flatMap encodeChar

end Utf8

end Intercal.Text
