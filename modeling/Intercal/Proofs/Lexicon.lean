import Intercal.Proofs.Lexemes

namespace Intercal

namespace Text

theorem toNat_toUpper (c : Char) :
    c.toUpper.toNat = if 97 ≤ c.toNat ∧ c.toNat ≤ 122 then c.toNat - 32 else c.toNat := by
  unfold Char.toUpper
  by_cases h : 'a'.val ≤ c.val ∧ c.val ≤ 'z'.val
  · have hbounds : 97 ≤ c.toNat ∧ c.toNat ≤ 122 := by
      rwa [UInt32.le_iff_toNat_le, UInt32.le_iff_toNat_le] at h
    rw [dif_pos h, if_pos hbounds]
    change (c.val + ('A'.val - 'a'.val)).toNat = _
    rw [UInt32.toNat_add]
    change (c.toNat + 4294967264) % 4294967296 = _
    omega
  · have hbounds : ¬ (97 ≤ c.toNat ∧ c.toNat ≤ 122) := by
      rwa [UInt32.le_iff_toNat_le, UInt32.le_iff_toNat_le] at h
    rw [dif_neg h, if_neg hbounds]

theorem toNat_toLower (c : Char) :
    c.toLower.toNat = if 65 ≤ c.toNat ∧ c.toNat ≤ 90 then c.toNat + 32 else c.toNat := by
  unfold Char.toLower
  by_cases h : c.val ≥ 'A'.val ∧ c.val ≤ 'Z'.val
  · have hbounds : 65 ≤ c.toNat ∧ c.toNat ≤ 90 := by
      rwa [ge_iff_le, UInt32.le_iff_toNat_le, UInt32.le_iff_toNat_le] at h
    rw [dif_pos h, if_pos hbounds]
    change (c.val + ('a'.val - 'A'.val)).toNat = _
    rw [UInt32.toNat_add]
    change (c.toNat + 32) % 4294967296 = _
    omega
  · have hbounds : ¬ (65 ≤ c.toNat ∧ c.toNat ≤ 90) := by
      rwa [ge_iff_le, UInt32.le_iff_toNat_le, UInt32.le_iff_toNat_le] at h
    rw [dif_neg h, if_neg hbounds]

theorem eq_of_toUpper_eq {c u l : Char} (hupper : c.toUpper = u) (hlower : u.toLower = l) : c = u ∨ c = l := by
  subst hupper hlower
  simp only [← Char.toNat_inj, toNat_toLower, toNat_toUpper]
  split <;> split <;> omega

theorem not_isDigit_of_isAlpha {c : Char} (hc : c.isAlpha = true) : ¬ c.isDigit = true := by
  rw [isDigit_iff]
  rw [isAlpha_iff] at hc
  omega

end Text

open Text

namespace Token

inductive Double : List Char → Kind → Kind → Prop
  | contraction {stem : List Char} {n t : Char} (nonempty : stem ≠ []) (letters : ∀ c ∈ stem, c.isAlpha = true)
      (negation : n = 'N' ∨ n = 'n') (close : t = 'T' ∨ t = 't') :
      Double (stem ++ [n, '\'', t]) (.word (String.ofList (stem.map Char.toUpper))) (.word "NOT")
  | bang : Double ['!'] (.punctuation '\'') (.punctuation '.')

def symbols : List Char := ['!', '$', '¢', '~', '&', '?']

/-- A lexeme, and the kinds of the tokens that it stands for. -/
inductive Spells : List Char → List Kind → Prop
  | number {ds : List Char} (nonempty : ds ≠ []) (digits : ∀ d ∈ ds, d.isDigit = true) :
      Spells ds [.number (saturated ds)]
  | label {ds : List Char} (nonempty : ds ≠ []) (digits : ∀ d ∈ ds, d.isDigit = true) :
      Spells ('(' :: (ds ++ [')'])) [.label (saturated ds)]
  | word {w : List Char} (nonempty : w ≠ []) (letters : ∀ c ∈ w, c.isAlpha = true) (long : w.map Char.toUpper ≠ ['V']) :
      Spells w [.word (String.ofList (w.map Char.toUpper))]
  | or {v : Char} (letter : v = 'V' ∨ v = 'v') : Spells [v] [.operator .or]
  | not {n t : Char} (negation : n = 'N' ∨ n = 'n') (close : t = 'T' ∨ t = 't') : Spells [n, '\'', t] [.word "NOT"]
  | double {text : List Char} {j k : Kind} (double : Double text j k) : Spells text [j, k]
  | gets : Spells ['<', '-'] [.gets]
  | operator {op : Operator} (sign : op ≠ .or) : Spells [op.symbol] [.operator op]
  | cent : Spells ['¢'] [.operator .mingle]
  | mark {c : Char} (visible : isBlank c = false) (digit : c.isDigit = false) (letter : c.isAlpha = false)
      (plain : c ∉ symbols) : Spells [c] [.punctuation c]

variable {c : Char} {cs text : List Char} {ks : List Kind}

theorem Spells.single_or_double (h : Spells text ks) : (∃ k, ks = [k]) ∨ ∃ j k, ks = [j, k] ∧ Double text j k := by
  cases h with
  | double double => exact .inr ⟨_, _, rfl, double⟩
  | _ => exact .inl ⟨_, rfl⟩

theorem Spells.kinds_ne_nil (h : Spells text ks) : ks ≠ [] := by
  rcases h.single_or_double with ⟨k, rfl⟩ | ⟨j, k, rfl, -⟩ <;> exact List.cons_ne_nil _ _

theorem lexeme_of_digit (hc : c.isDigit = true) (cs : List Char) :
    lexeme c cs =
      ([.number (saturated ((c :: cs).takeWhile Char.isDigit))], ((c :: cs).takeWhile Char.isDigit).length) :=
  if_pos hc

theorem lexeme_of_alpha (hc : c.isAlpha = true) (cs : List Char) : lexeme c cs = wordLexeme (c :: cs) := by
  unfold lexeme
  rw [if_neg (not_isDigit_of_isAlpha hc), if_pos hc]

theorem wordLexeme_of_contracts {stem : List Char} {n t : Char} (hstem : ∀ x ∈ stem, x.isAlpha = true)
    (hn : n = 'N' ∨ n = 'n') (ht : t = 'T' ∨ t = 't') (more : List Char) :
    wordLexeme (stem ++ n :: '\'' :: t :: more) =
      ((if stem = [] then [] else [.word (String.ofList (stem.map Char.toUpper))]) ++ [.word "NOT"],
        stem.length + 3) := by
  have hletters : ∀ x ∈ stem ++ [n], x.isAlpha = true := by
    intro x hx
    rcases List.mem_append.mp hx with hx | hx
    · exact hstem x hx
    · rw [List.mem_singleton.mp hx]
      rcases hn with rfl | rfl <;> rfl
  have htake : (stem ++ n :: '\'' :: t :: more).takeWhile Char.isAlpha = stem ++ [n] := by
    rw [List.append_cons]
    exact takeWhile_append_eq hletters (by simp)
  have hupper : n.toUpper = 'N' := by rcases hn with rfl | rfl <;> rfl
  have hcontracts : contracts ('\'' :: t :: more) = true := contracts_iff.mpr ⟨t, more, rfl, ht⟩
  have hdrop : (stem ++ n :: '\'' :: t :: more).drop (stem.length + 1) = '\'' :: t :: more := by
    rw [List.append_cons]
    exact List.drop_left' (by simp)
  simp [wordLexeme, htake, hupper, hdrop, hcontracts]

theorem wordLexeme_of_not_contracts (h : ¬ (((cs.takeWhile Char.isAlpha).map Char.toUpper).getLast? = some 'N' ∧
    contracts (cs.dropWhile Char.isAlpha) = true)) :
    wordLexeme cs =
      ([wordKind ((cs.takeWhile Char.isAlpha).map Char.toUpper)], (cs.takeWhile Char.isAlpha).length) := by
  have hdrop : cs.drop (cs.takeWhile Char.isAlpha).length = cs.dropWhile Char.isAlpha := by
    have hsplit := congrArg (List.drop (cs.takeWhile Char.isAlpha).length)
      (List.takeWhile_append_dropWhile (p := Char.isAlpha) (l := cs))
    rw [List.drop_left] at hsplit
    exact hsplit.symm
  unfold wordLexeme
  dsimp only
  rw [List.length_map, hdrop, if_neg]
  simpa using h

theorem spells_wordKind {w : List Char} (hw : w ≠ []) (hletters : ∀ x ∈ w, x.isAlpha = true) :
    Spells w [wordKind (w.map Char.toUpper)] := by
  unfold wordKind
  split
  · next hV =>
    obtain ⟨v, rfl, hv⟩ := List.map_eq_singleton_iff.mp hV
    exact .or (eq_of_toUpper_eq hv rfl)
  · next hV => exact .word hw hletters hV

theorem wordLexeme_spells (hc : c.isAlpha = true) (cs : List Char) :
    ∃ w rest ks, cs = w ++ rest ∧ wordLexeme (c :: cs) = (ks, w.length + 1) ∧ Spells (c :: w) ks := by
  have hsplit : c :: cs = (c :: cs.takeWhile Char.isAlpha) ++ cs.dropWhile Char.isAlpha := by
    rw [List.cons_append, List.takeWhile_append_dropWhile]
  have hletters : ∀ x ∈ c :: cs.takeWhile Char.isAlpha, x.isAlpha = true := by
    rw [← List.takeWhile_cons_of_pos hc]
    exact List.all_eq_true.mp List.all_takeWhile
  by_cases hcontracts : ((c :: cs.takeWhile Char.isAlpha).map Char.toUpper).getLast? = some 'N' ∧
      contracts (cs.dropWhile Char.isAlpha) = true
  · -- the last letter and the two characters behind it stand for the negation
    obtain ⟨ys, hys⟩ := List.getLast?_eq_some_iff.mp hcontracts.1
    obtain ⟨stem, last, hrun, -, hlast⟩ := List.map_eq_append_iff.mp hys
    obtain ⟨n, rfl, hn⟩ := List.map_eq_singleton_iff.mp hlast
    obtain ⟨t, more, hmore, ht⟩ := contracts_iff.mp hcontracts.2
    have hnegation : n = 'N' ∨ n = 'n' := eq_of_toUpper_eq hn rfl
    have hstem : ∀ x ∈ stem, x.isAlpha = true := by
      intro x hx
      exact hletters x (hrun ▸ List.mem_append_left _ hx)
    have hlexeme := wordLexeme_of_contracts hstem hnegation ht more
    have htext : c :: cs = stem ++ n :: '\'' :: t :: more := by
      rw [hsplit, hrun, hmore, List.append_assoc]
      rfl
    rw [htext, hlexeme]
    cases stem with
    | nil =>
      obtain ⟨rfl, rfl⟩ := List.cons.inj htext
      exact ⟨['\'', t], more, _, rfl, rfl, .not hnegation ht⟩
    | cons x stem =>
      obtain ⟨rfl, rfl⟩ := List.cons.inj htext
      have hdouble := Double.contraction (List.cons_ne_nil c stem) hstem hnegation ht
      exact ⟨stem ++ [n, '\'', t], more, _, by simp, by simp, .double hdouble⟩
  · rw [← List.takeWhile_cons_of_pos hc, ← List.dropWhile_cons_of_pos hc] at hcontracts
    have hlexeme := wordLexeme_of_not_contracts hcontracts
    rw [List.takeWhile_cons_of_pos hc] at hlexeme
    exact ⟨_, _, _, List.takeWhile_append_dropWhile.symm, hlexeme, spells_wordKind (List.cons_ne_nil _ _) hletters⟩

theorem labelLexeme_spells (cs : List Char) :
    ∃ w rest ks, cs = w ++ rest ∧ labelLexeme cs = (ks, w.length + 1) ∧ Spells ('(' :: w) ks := by
  rcases labelLexeme_cases cs with ⟨digits, rest, rfl, hne, hdigits⟩ | hopen
  · refine ⟨digits ++ [')'], rest, _, by simp, ?_, .label hne hdigits⟩
    rw [labelLexeme_closed hne hdigits]
    simp
  · exact ⟨[], cs, _, rfl, hopen, .mark rfl rfl rfl (by decide)⟩

/-- What a text begins with is a lexeme. -/
theorem lexeme_spells (hc : isBlank c = false) (cs : List Char) :
    ∃ w rest ks, cs = w ++ rest ∧ lexeme c cs = (ks, w.length + 1) ∧ Spells (c :: w) ks := by
  by_cases hdigit : c.isDigit = true
  · have hdigits : ∀ d ∈ c :: cs.takeWhile Char.isDigit, d.isDigit = true := by
      rw [← List.takeWhile_cons_of_pos hdigit]
      exact List.all_eq_true.mp List.all_takeWhile
    refine ⟨_, _, _, (List.takeWhile_append_dropWhile (p := Char.isDigit)).symm, ?_,
      .number (List.cons_ne_nil _ _) hdigits⟩
    rw [lexeme_of_digit hdigit, List.takeWhile_cons_of_pos hdigit]
    rfl
  by_cases halpha : c.isAlpha = true
  · rw [lexeme_of_alpha halpha]
    exact wordLexeme_spells halpha cs
  unfold lexeme
  rw [if_neg hdigit, if_neg halpha]
  split
  · exact labelLexeme_spells cs
  · split
    · next harrow =>
      obtain ⟨rest, rfl⟩ := List.head?_eq_some_iff.mp (beq_iff_eq.mp harrow)
      exact ⟨['-'], rest, _, rfl, rfl, .gets⟩
    · exact ⟨[], cs, _, rfl, rfl, .mark hc rfl rfl (by decide)⟩
  · exact ⟨[], cs, _, rfl, rfl, .double .bang⟩
  · exact ⟨[], cs, _, rfl, rfl, .operator (show Operator.mingle ≠ .or by decide)⟩
  · exact ⟨[], cs, _, rfl, rfl, .cent⟩
  · exact ⟨[], cs, _, rfl, rfl, .operator (show Operator.select ≠ .or by decide)⟩
  · exact ⟨[], cs, _, rfl, rfl, .operator (show Operator.and ≠ .or by decide)⟩
  · exact ⟨[], cs, _, rfl, rfl, .operator (show Operator.xor ≠ .or by decide)⟩
  · refine ⟨[], cs, _, rfl, rfl, .mark hc (Bool.eq_false_iff.mpr hdigit) (Bool.eq_false_iff.mpr halpha) ?_⟩
    simp_all [symbols]

theorem Double.solid {j k : Kind} (h : Double text j k) : ∀ x ∈ text, isBlank x = false := by
  cases h with
  | contraction nonempty letters negation close =>
    simp only [List.forall_mem_append, List.forall_mem_cons, List.not_mem_nil, false_implies, implies_true, and_true]
    refine ⟨fun x hx ↦ isBlank_eq_false (.inl (letters x hx)), ?_, rfl, ?_⟩
    · rcases negation with rfl | rfl <;> rfl
    · rcases close with rfl | rfl <;> rfl
  | bang => exact List.forall_mem_singleton.mpr rfl

/-- No lexeme has a blank in it, whatever it stands for. -/
theorem Spells.solid (h : Spells text ks) : ∀ x ∈ text, isBlank x = false := by
  cases h with
  | number nonempty digits => exact fun x hx ↦ isBlank_eq_false (.inr (digits x hx))
  | label nonempty digits =>
    simp only [List.forall_mem_cons, List.forall_mem_append, List.not_mem_nil, false_implies, implies_true, and_true]
    exact ⟨rfl, fun x hx ↦ isBlank_eq_false (.inr (digits x hx)), rfl⟩
  | word nonempty letters long => exact fun x hx ↦ isBlank_eq_false (.inl (letters x hx))
  | or letter => rcases letter with rfl | rfl <;> exact List.forall_mem_singleton.mpr rfl
  | not negation close =>
    simp only [List.forall_mem_cons, List.not_mem_nil, false_implies, implies_true, and_true]
    refine ⟨?_, rfl, ?_⟩
    · rcases negation with rfl | rfl <;> rfl
    · rcases close with rfl | rfl <;> rfl
  | double double => exact double.solid
  | gets => exact List.forall_mem_cons.mpr ⟨rfl, List.forall_mem_singleton.mpr rfl⟩
  | @operator op sign => exact List.forall_mem_singleton.mpr (by cases op <;> rfl)
  | cent => exact List.forall_mem_singleton.mpr rfl
  | mark visible digit letter plain => exact List.forall_mem_singleton.mpr visible

theorem Spells.ne_nil (h : Spells text ks) : text ≠ [] := by
  cases h with
  | number nonempty digits => exact nonempty
  | word nonempty letters long => exact nonempty
  | double double => cases double <;> simp
  | _ => simp

theorem length_run_le_wordLexeme (cs : List Char) : (cs.takeWhile Char.isAlpha).length ≤ (wordLexeme cs).2 := by
  unfold wordLexeme
  dsimp only
  split <;> simp

theorem lexeme_of_contracts {stem more : List Char} {n t : Char} (hstem : ∀ x ∈ stem, x.isAlpha = true)
    (hn : n = 'N' ∨ n = 'n') (ht : t = 'T' ∨ t = 't') (htext : stem ++ n :: '\'' :: t :: more = c :: cs) :
    (lexeme c cs).2 = stem.length + 3 := by
  have hc : c.isAlpha = true := by
    cases stem with
    | nil =>
      obtain ⟨rfl, -⟩ := List.cons.inj htext
      rcases hn with rfl | rfl <;> rfl
    | cons x stem =>
      obtain ⟨rfl, -⟩ := List.cons.inj htext
      exact hstem x List.mem_cons_self
  rw [lexeme_of_alpha hc, ← htext, wordLexeme_of_contracts hstem hn ht]

/-- The lexeme that a text begins with is the longest that stands there. -/
theorem Spells.length_le_lexeme (h : Spells text ks) {rest : List Char} (hrest : text ++ rest = c :: cs) :
    text.length ≤ (lexeme c cs).2 := by
  have hfirst : c ∈ text := by
    obtain ⟨x, xs, rfl⟩ := List.exists_cons_of_ne_nil h.ne_nil
    rw [List.cons_append] at hrest
    rw [← (List.cons.inj hrest).1]
    exact List.mem_cons_self
  have hvisible : isBlank c = false := h.solid c hfirst
  have hone : 1 ≤ (lexeme c cs).2 := by
    obtain ⟨w, _, _, -, hlexeme, -⟩ := lexeme_spells hvisible cs
    rw [hlexeme]
    exact Nat.succ_pos _
  cases h with
  | number nonempty digits =>
    rw [lexeme_of_digit (digits c hfirst), ← hrest, List.takeWhile_append_of_pos digits, List.length_append]
    exact Nat.le_add_right _ _
  | @label ds nonempty digits =>
    rw [List.cons_append, List.append_assoc, List.singleton_append] at hrest
    obtain ⟨rfl, rfl⟩ := List.cons.inj hrest
    have hlexeme : lexeme '(' (ds ++ ')' :: rest) = labelLexeme (ds ++ ')' :: rest) := rfl
    rw [hlexeme, labelLexeme_closed nonempty digits]
    simp
  | word nonempty letters long =>
    rw [lexeme_of_alpha (letters c hfirst), ← hrest]
    refine Nat.le_trans ?_ (length_run_le_wordLexeme _)
    rw [List.takeWhile_append_of_pos letters, List.length_append]
    exact Nat.le_add_right _ _
  | not negation close =>
    rw [lexeme_of_contracts (List.forall_mem_nil _) negation close hrest]
    exact Nat.le_refl 3
  | double double =>
    cases double with
    | contraction nonempty letters negation close =>
      rw [List.append_assoc] at hrest
      rw [lexeme_of_contracts letters negation close hrest, List.length_append]
      exact Nat.le_refl _
    | bang => exact hone
  | gets =>
    obtain ⟨rfl, rfl⟩ := List.cons.inj hrest
    exact Nat.le_refl 2
  | _ => exact hone

end Token

end Intercal
