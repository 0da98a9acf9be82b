import Intercal.Naming
import Intercal.Token.Lexer

namespace Intercal

namespace Text

theorem toList_toString (n : Nat) : (toString n).toList = Nat.toDigits 10 n := by
  rw [Nat.toString_eq_ofList_toDigits, String.toList_ofList]

theorem toString_ne_nil (n : Nat) : (toString n).toList ≠ [] := by
  rw [toList_toString]
  exact Nat.toDigits_ne_nil

theorem isDigit_of_mem_toString {n : Nat} {c : Char} (h : c ∈ (toString n).toList) : c.isDigit = true := by
  rw [toList_toString] at h
  exact Nat.isDigit_of_mem_toDigits (by decide) (by decide) h

theorem digitsValue_toString (n : Nat) : digitsValue (toString n).toList = n := by
  simp only [toList_toString, digitsValue, Nat.mul_comm _ 10]
  rw [← Nat.ofDigitChars_eq_foldl, Nat.ofDigitChars_ten_toDigits]

theorem saturated_toString {n : Nat} (h : n ≤ maxWord) : saturated (toString n).toList = n := by
  rw [saturated, digitsValue_toString, Nat.min_eq_left h]

theorem isDigit_iff {c : Char} : c.isDigit = true ↔ 48 ≤ c.toNat ∧ c.toNat ≤ 57 := by
  simp [Char.isDigit, UInt32.le_iff_toNat_le]

theorem isUpper_iff {c : Char} : c.isUpper = true ↔ 65 ≤ c.toNat ∧ c.toNat ≤ 90 := by
  have hupper : c.isUpper = decide ('A'.val ≤ c.val ∧ c.val ≤ 'Z'.val) := rfl
  simp [hupper, UInt32.le_iff_toNat_le]

theorem isAlpha_iff {c : Char} :
    c.isAlpha = true ↔ 65 ≤ c.toNat ∧ c.toNat ≤ 90 ∨ 97 ≤ c.toNat ∧ c.toNat ≤ 122 := by
  have halpha : c.isAlpha = (c.isUpper || decide ('a'.val ≤ c.val) && decide (c.val ≤ 'z'.val)) := rfl
  rw [halpha, Bool.or_eq_true, isUpper_iff]
  simp [UInt32.le_iff_toNat_le]

theorem isAlpha_of_isUpper {c : Char} (h : c.isUpper = true) : c.isAlpha = true :=
  isAlpha_iff.mpr (.inl (isUpper_iff.mp h))

theorem toUpper_of_isUpper {c : Char} (h : c.isUpper = true) : c.toUpper = c := by
  rw [isUpper_iff] at h
  have hlower : ¬ ('a'.val ≤ c.val ∧ c.val ≤ 'z'.val) := by
    rintro ⟨hle, -⟩
    have : 97 ≤ c.toNat := UInt32.le_iff_toNat_le.mp hle
    omega
  exact dif_neg hlower

theorem not_isAlpha_of_isBlank {c : Char} (h : isBlank c = true) :
    c.isAlpha = false ∧ c.isDigit = false ∧ c ≠ '\'' := by
  simp only [isBlank, Bool.or_eq_true, Bool.and_eq_true, decide_eq_true_eq, beq_iff_eq] at h
  refine ⟨?_, ?_, ?_⟩
  · rw [Bool.eq_false_iff, ne_eq, isAlpha_iff]
    omega
  · rw [Bool.eq_false_iff, ne_eq, isDigit_iff]
    omega
  · rintro rfl
    revert h
    decide

theorem isBlank_eq_false {c : Char} (h : c.isAlpha = true ∨ c.isDigit = true) : isBlank c = false := by
  rw [Bool.eq_false_iff]
  intro hblank
  obtain ⟨halpha, hdigit, -⟩ := not_isAlpha_of_isBlank hblank
  rw [halpha, hdigit] at h
  simp at h

theorem takeWhile_append_eq {p : Char → Bool} {front rest : List Char} (hfront : ∀ c ∈ front, p c = true)
    (hrest : ∀ c ∈ rest.head?, p c = false) : (front ++ rest).takeWhile p = front := by
  rw [List.takeWhile_append_of_pos hfront]
  cases rest with
  | nil => exact List.append_nil front
  | cons c rest => rw [List.takeWhile_cons, hrest c rfl, if_neg Bool.false_ne_true, List.append_nil]

end Text

open Text

theorem Label.toList_writeRaw (n : Nat) : (writeRaw n).toList = '(' :: ((toString n).toList ++ [')']) := by
  simp only [writeRaw, String.toList_append]
  rfl

namespace Token

inductive Piece where
  | gap (c : Char)
  | token (k : Kind)

namespace Piece

def spell : Piece → List Char
  | .gap c | .token (.punctuation c) => [c]
  | .token (.word w) => w.toList
  | .token (.label n) => (Label.writeRaw n).toList
  | .token (.number n) => (toString n).toList
  | .token .gets => ['<', '-']
  | .token (.operator op) => [op.symbol]

def isGap : Piece → Bool
  | .gap _ => true
  | _ => false

def isSolid : Piece → Bool
  | .token (.word _) | .token (.number _) | .token (.operator .or) => true
  | _ => false

def kind? : Piece → Option Kind
  | .gap _ => none
  | .token k => some k

end Piece

def marks : List Char := ['#', '.', ':', ',', ';', '\'', '+', '%']

theorem of_mem_marks {c : Char} (h : c ∈ marks) : isBlank c = false ∧ c.isAlpha = false ∧ c.isDigit = false := by
  simp only [marks, List.mem_cons, List.not_mem_nil, or_false] at h
  rcases h with rfl | rfl | rfl | rfl | rfl | rfl | rfl | rfl <;> decide

def Plain (w : String) : Prop := w.toList ≠ [] ∧ w.toList.all Char.isUpper = true ∧ w ≠ "V"

instance (w : String) : Decidable (Plain w) := inferInstanceAs (Decidable (_ ∧ _ ∧ _))

/-- Pieces that can be told apart again: there is a blank after each word, and neither a letter nor a digit after a
number. -/
inductive Legible : List Piece → Prop
  | nil : Legible []
  | gap {c : Char} {xs : List Piece} (blank : isBlank c = true) (rest : Legible xs) : Legible (.gap c :: xs)
  | mark {c : Char} {xs : List Piece} (mark : c ∈ marks) (rest : Legible xs) :
      Legible (.token (.punctuation c) :: xs)
  | label {n : Nat} {xs : List Piece} (le : n ≤ maxWord) (rest : Legible xs) : Legible (.token (.label n) :: xs)
  | gets {xs : List Piece} (rest : Legible xs) : Legible (.token .gets :: xs)
  | operator {op : Operator} {xs : List Piece} (apart : op = .or → ∀ y ∈ xs.head?, y.isSolid = false)
      (rest : Legible xs) : Legible (.token (.operator op) :: xs)
  | number {n : Nat} {xs : List Piece} (le : n ≤ maxWord) (apart : ∀ y ∈ xs.head?, y.isSolid = false)
      (rest : Legible xs) : Legible (.token (.number n) :: xs)
  | word {w : String} {xs : List Piece} (plain : Plain w) (apart : ∀ y ∈ xs.head?, y.isGap) (rest : Legible xs) :
      Legible (.token (.word w) :: xs)

namespace Legible

theorem of_append {xs ys : List Piece} (h : Legible (xs ++ ys)) : Legible ys := by
  induction xs with
  | nil => exact h
  | cons x xs ih => cases h <;> exact ih ‹_›

theorem spell_token {xs : List Piece} (h : Legible xs) {k : Kind} (hk : .token k ∈ xs) :
    (Piece.token k).spell ≠ [] ∧ ∀ c ∈ (Piece.token k).spell, isBlank c = false := by
  obtain ⟨front, back, rfl⟩ := List.append_of_mem hk
  have hdigits (n : Nat) : ∀ c ∈ (toString n).toList, isBlank c = false := fun c hc ↦
    isBlank_eq_false (.inr (isDigit_of_mem_toString hc))
  cases h.of_append with
  | mark mark rest =>
    exact ⟨nofun, List.forall_mem_singleton.mpr (of_mem_marks mark).1⟩
  | @label n _ le rest =>
    rw [Piece.spell, Label.toList_writeRaw]
    refine ⟨nofun, fun c hc ↦ ?_⟩
    rcases List.mem_cons.mp hc with rfl | hc
    · rfl
    · rcases List.mem_append.mp hc with hc | hc
      · exact hdigits n c hc
      · cases List.mem_singleton.mp hc
        rfl
  | gets rest => exact ⟨nofun, List.forall_mem_cons.mpr ⟨rfl, List.forall_mem_singleton.mpr rfl⟩⟩
  | @operator op _ apart rest => exact ⟨nofun, List.forall_mem_singleton.mpr (by cases op <;> rfl)⟩
  | @number n _ le apart rest => exact ⟨toString_ne_nil n, hdigits n⟩
  | word plain apart rest =>
    have hupper := List.all_eq_true.mp plain.2.1
    exact ⟨plain.1, fun c hc ↦ isBlank_eq_false (.inl (isAlpha_of_isUpper (hupper c hc)))⟩

end Legible

def spellAll (xs : List Piece) : List Char := xs.flatMap Piece.spell

/-- The tokens among the pieces, where they stand if the text begins at the given place. -/
def place (p : Position) : List Piece → List Token
  | [] => []
  | .gap c :: xs => place (p.advance c) xs
  | .token k :: xs => ⟨k, p⟩ :: place (p.after (Piece.token k).spell) xs

theorem spellAll_cons (x : Piece) (xs : List Piece) : spellAll (x :: xs) = x.spell ++ spellAll xs := rfl

theorem spellAll_append (xs ys : List Piece) : spellAll (xs ++ ys) = spellAll xs ++ spellAll ys :=
  List.flatMap_append

theorem after_append (p : Position) (cs ds : List Char) : p.after (cs ++ ds) = (p.after cs).after ds :=
  List.foldl_append

theorem place_append (p : Position) (xs ys : List Piece) :
    place p (xs ++ ys) = place p xs ++ place (p.after (spellAll xs)) ys := by
  induction xs generalizing p with
  | nil => rfl
  | cons x xs ih =>
    rw [spellAll_cons, after_append]
    cases x with
    | gap c => exact ih _
    | token k => exact congrArg (_ :: ·) (ih _)

theorem kinds_place (p : Position) (xs : List Piece) : (place p xs).map (·.kind) = xs.filterMap Piece.kind? := by
  induction xs generalizing p with
  | nil => rfl
  | cons x xs ih =>
    cases x with
    | gap c => exact ih _
    | token k => exact congrArg (_ :: ·) (ih _)

/-- What follows a number or the letter of an operator begins with something else. -/
theorem head?_spellAll {xs : List Piece} (h : Legible xs) (hapart : ∀ y ∈ xs.head?, y.isSolid = false) {c : Char}
    (hc : c ∈ (spellAll xs).head?) : c.isAlpha = false ∧ c.isDigit = false := by
  cases h with
  | nil => cases hc
  | gap blank rest =>
    cases hc
    exact ⟨(not_isAlpha_of_isBlank blank).1, (not_isAlpha_of_isBlank blank).2.1⟩
  | @mark d xs mark rest =>
    cases hc
    exact (of_mem_marks mark).2
  | label le rest =>
    simp only [spellAll_cons, Piece.spell, Label.toList_writeRaw] at hc
    cases hc
    decide
  | gets rest =>
    cases hc
    decide
  | @operator op xs apart rest =>
    cases hc
    cases op with
    | or => cases hapart _ rfl
    | _ => decide
  | number le apart rest => cases hapart _ rfl
  | word plain apart rest => cases hapart _ rfl

theorem head?_spellAll_of_gap {xs : List Piece} (h : Legible xs) (hapart : ∀ y ∈ xs.head?, y.isGap) {c : Char}
    (hc : c ∈ (spellAll xs).head?) : isBlank c = true := by
  cases h with
  | nil => cases hc
  | gap blank rest =>
    cases hc
    exact blank
  | _ => cases hapart _ rfl

theorem scan_covered (p : Position) (front rest : List Char) :
    scan front.length p (front ++ rest) = scan 0 (p.after front) rest := by
  induction front generalizing p with
  | nil => rfl
  | cons c front ih => exact ih _

/-- A lexeme that is one token, and covers just its own characters. -/
theorem scan_lexeme {p : Position} {c : Char} (cs : List Char) {rest : List Char} {k : Kind}
    (hblank : isBlank c = false) (hlexeme : lexeme c (cs ++ rest) = ([k], cs.length + 1)) :
    scan 0 p (c :: cs ++ rest) =
      (⟨k, p⟩ :: (scan 0 (p.after (c :: cs)) rest).1, (scan 0 (p.after (c :: cs)) rest).2) := by
  rw [List.cons_append, scan, if_neg (by rw [hblank]; exact Bool.false_ne_true), hlexeme]
  simp only [List.map_cons, List.map_nil, Nat.add_sub_cancel, scan_covered]
  rfl

theorem scan_number {n : Nat} (hn : n ≤ maxWord) {rest : List Char} (hrest : ∀ c ∈ rest.head?, c.isDigit = false)
    (p : Position) :
    scan 0 p ((toString n).toList ++ rest) =
      (⟨.number n, p⟩ :: (scan 0 (p.after (toString n).toList) rest).1,
        (scan 0 (p.after (toString n).toList) rest).2) := by
  have hdigits : ∀ c ∈ (toString n).toList, c.isDigit = true := fun _ ↦ isDigit_of_mem_toString
  have hvalue := saturated_toString hn
  have htake := takeWhile_append_eq hdigits hrest
  cases hspell : (toString n).toList with
  | nil => exact absurd hspell (toString_ne_nil n)
  | cons c cs =>
    rw [hspell] at hdigits hvalue htake
    have hc := hdigits c List.mem_cons_self
    refine scan_lexeme cs (isBlank_eq_false (.inr hc)) ?_
    unfold lexeme
    rw [if_pos hc, ← List.cons_append, htake]
    simp only [hvalue, List.length_cons]

theorem scan_label {n : Nat} (hn : n ≤ maxWord) (rest : List Char) (p : Position) :
    scan 0 p ((Label.writeRaw n).toList ++ rest) =
      (⟨.label n, p⟩ :: (scan 0 (p.after (Label.writeRaw n).toList) rest).1,
        (scan 0 (p.after (Label.writeRaw n).toList) rest).2) := by
  have hdigits : ∀ c ∈ (toString n).toList, c.isDigit = true := fun _ ↦ isDigit_of_mem_toString
  have hstop : ∀ c ∈ (')' :: rest).head?, c.isDigit = false := by
    intro c hc
    cases hc
    rfl
  have htake := takeWhile_append_eq hdigits hstop
  have hnonempty : (toString n).toList.isEmpty = false := List.isEmpty_eq_false_iff.mpr (toString_ne_nil n)
  rw [Label.toList_writeRaw]
  refine scan_lexeme _ (by decide) ?_
  simp only [lexeme, labelLexeme, List.append_assoc, List.cons_append, List.nil_append, htake, List.drop_left,
    hnonempty, saturated_toString hn, List.length_append, List.length_cons, List.length_nil]
  rfl

theorem scan_word {w : String} (hw : Plain w) {rest : List Char} (hrest : ∀ c ∈ rest.head?, isBlank c = true)
    (p : Position) :
    scan 0 p (w.toList ++ rest) =
      (⟨.word w, p⟩ :: (scan 0 (p.after w.toList) rest).1, (scan 0 (p.after w.toList) rest).2) := by
  obtain ⟨hnonempty, hcapitals, hoperator⟩ := hw
  have hupper := List.all_eq_true.mp hcapitals
  have halpha : ∀ c ∈ w.toList, c.isAlpha = true := fun c hc ↦ isAlpha_of_isUpper (hupper c hc)
  have htake := takeWhile_append_eq halpha fun c hc ↦ (not_isAlpha_of_isBlank (hrest c hc)).1
  have hletters : w.toList.map Char.toUpper = w.toList := by
    conv => rhs; rw [← List.map_id w.toList]
    exact List.map_congr_left fun c hc ↦ toUpper_of_isUpper (hupper c hc)
  have hcontracts : contracts rest = false := by
    unfold contracts
    split
    · next rest => exact absurd rfl (not_isAlpha_of_isBlank (hrest '\'' rfl)).2.2
    · rfl
  have hkind : wordKind w.toList = .word w := by
    rw [wordKind, if_neg, String.ofList_toList]
    intro hV
    exact hoperator (String.toList_inj.mp hV)
  cases hspell : w.toList with
  | nil => exact absurd hspell hnonempty
  | cons c cs =>
    rw [hspell] at halpha htake hletters hkind
    have hc := halpha c List.mem_cons_self
    have hdigit : ¬ c.isDigit = true := by
      rw [isDigit_iff]
      rw [isAlpha_iff] at hc
      omega
    refine scan_lexeme cs (isBlank_eq_false (.inl hc)) ?_
    unfold lexeme wordLexeme
    rw [if_neg hdigit, if_pos hc, ← List.cons_append, htake, hletters]
    dsimp only
    rw [List.drop_left, hcontracts, Bool.and_false, if_neg Bool.false_ne_true, hkind]
    rfl

theorem scan_operator {op : Operator} {rest : List Char} (hrest : op = .or → ∀ c ∈ rest.head?, c.isAlpha = false)
    (p : Position) :
    scan 0 p (op.symbol :: rest) =
      (⟨.operator op, p⟩ :: (scan 0 (p.after [op.symbol]) rest).1, (scan 0 (p.after [op.symbol]) rest).2) := by
  refine scan_lexeme [] (by cases op <;> decide) ?_
  cases op with
  | or =>
    have hV : ∀ c ∈ ['V'], c.isAlpha = true := List.forall_mem_singleton.mpr rfl
    have htake : ('V' :: rest).takeWhile Char.isAlpha = ['V'] := takeWhile_append_eq hV (hrest rfl)
    simp only [lexeme, Operator.symbol, List.nil_append, wordLexeme, htake]
    rfl
  | _ => rfl

theorem scan_mark {c : Char} (hc : c ∈ marks) (rest : List Char) (p : Position) :
    scan 0 p (c :: rest) =
      (⟨.punctuation c, p⟩ :: (scan 0 (p.after [c]) rest).1, (scan 0 (p.after [c]) rest).2) := by
  refine scan_lexeme [] (of_mem_marks hc).1 ?_
  simp only [marks, List.mem_cons, List.not_mem_nil, or_false] at hc
  rcases hc with rfl | rfl | rfl | rfl | rfl | rfl | rfl | rfl <;> rfl

theorem scan_spellAll {xs : List Piece} (h : Legible xs) (p : Position) :
    scan 0 p (spellAll xs) = (place p xs, p.after (spellAll xs)) := by
  induction h generalizing p with
  | nil => rfl
  | @gap c xs blank rest ih =>
    change scan 0 p (c :: spellAll xs) = _
    rw [scan, if_pos blank, ih]
    rfl
  | @mark c xs mark rest ih =>
    change scan 0 p (c :: spellAll xs) = _
    rw [scan_mark mark, ih]
    rfl
  | label le rest ih =>
    rw [spellAll_cons, Piece.spell, scan_label le, ih, after_append]
    rfl
  | @gets xs rest ih =>
    have hlexeme : lexeme '<' (['-'] ++ spellAll xs) = ([.gets], 2) := rfl
    rw [spellAll_cons, Piece.spell, scan_lexeme ['-'] (by decide) hlexeme, ih]
    rfl
  | @operator op xs apart rest ih =>
    change scan 0 p (op.symbol :: spellAll xs) = _
    rw [scan_operator fun hop c hc ↦ (head?_spellAll rest (apart hop) hc).1, ih]
    rfl
  | number le apart rest ih =>
    rw [spellAll_cons, Piece.spell, scan_number le fun c hc ↦ (head?_spellAll rest apart hc).2, ih, after_append]
    rfl
  | word plain apart rest ih =>
    rw [spellAll_cons, Piece.spell, scan_word plain fun c hc ↦ head?_spellAll_of_gap rest apart hc, ih, after_append]
    rfl

end Token

end Intercal
