namespace Intercal

structure Label where
  value : Nat
  pos : 0 < value
  le : value ≤ 65535
  deriving DecidableEq

namespace Label

def ofNat? (n : Nat) : Option Label :=
  if h : 0 < n ∧ n ≤ 65535 then some ⟨n, h.1, h.2⟩ else none

def writeRaw (n : Nat) : String := "(" ++ toString n ++ ")"

def write (l : Label) : String := writeRaw l.value

theorem ofNat?_value (l : Label) : ofNat? l.value = some l := by
  simp [ofNat?, l.pos, l.le]

theorem ofNat?_eq_some_iff {n : Nat} {l : Label} : ofNat? n = some l ↔ l.value = n := by
  constructor
  · intro h
    unfold ofNat? at h
    split at h
    · cases h; rfl
    · cases h
  · rintro rfl
    exact ofNat?_value l

theorem ofNat?_eq_none_iff {n : Nat} : ofNat? n = none ↔ n = 0 ∨ 65535 < n := by
  unfold ofNat?
  split <;> simp <;> omega

end Label

inductive Variable.Kind where
  | spot
  | twoSpot
  | tail
  | hybrid
  deriving DecidableEq

namespace Variable.Kind

def sigil : Kind → Char
  | .spot => '.'
  | .twoSpot => ':'
  | .tail => ','
  | .hybrid => ';'

def ofSigil? : Char → Option Kind
  | '.' => some .spot
  | ':' => some .twoSpot
  | ',' => some .tail
  | ';' => some .hybrid
  | _ => none

def isArray : Kind → Bool
  | .spot | .twoSpot => false
  | .tail | .hybrid => true

/-- Whether what is stored under this kind is held to 16 bits. -/
def isShort : Kind → Bool
  | .spot | .tail => true
  | .twoSpot | .hybrid => false

theorem ofSigil?_sigil (k : Kind) : ofSigil? k.sigil = some k := by cases k <;> rfl

end Variable.Kind

structure Variable where
  kind : Variable.Kind
  number : Nat
  deriving DecidableEq

namespace Variable

def spot (n : Nat) : Variable := ⟨.spot, n⟩

def twoSpot (n : Nat) : Variable := ⟨.twoSpot, n⟩

def write (v : Variable) : String := v.kind.sigil.toString ++ toString v.number

end Variable

end Intercal
