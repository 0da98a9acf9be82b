import Intercal.Proofs.Spelling

namespace Intercal

open Text

namespace Token

variable {c d : Char} {cs rest : List Char}

/-- What is taken from a text that goes on is taken from its front, if it is not longer. -/
theorem takeWhile_append_short {p : Char → Bool} (h : ((cs ++ rest).takeWhile p).length ≤ cs.length) :
    (cs ++ rest).takeWhile p = cs.takeWhile p := by
  induction cs with
  | nil => exact List.length_eq_zero_iff.mp (Nat.le_zero.mp h)
  | cons c cs ih =>
    rw [List.cons_append, List.takeWhile_cons] at h ⊢
    rw [List.takeWhile_cons]
    split
    · next hc =>
      rw [if_pos hc, List.length_cons, List.length_cons] at h
      rw [ih (Nat.le_of_succ_le_succ h)]
    · rfl

theorem length_takeWhile_le (p : Char → Bool) (cs : List Char) : (cs.takeWhile p).length ≤ cs.length :=
  (List.takeWhile_prefix p).length_le

theorem contracts_iff : contracts cs = true ↔ ∃ c rest, cs = '\'' :: c :: rest ∧ (c = 'T' ∨ c = 't') := by
  unfold contracts
  split
  · next c rest => simp
  · next hne =>
    refine ⟨nofun, ?_⟩
    rintro ⟨c, rest, rfl, -⟩
    exact absurd rfl (hne c rest)

theorem contracts_append (h : contracts (cs ++ rest) = true → 2 ≤ cs.length) :
    contracts (cs ++ rest) = contracts cs := by
  rw [Bool.eq_iff_iff]
  constructor
  · intro hcontracts
    obtain ⟨c, more, heq, hc⟩ := contracts_iff.mp hcontracts
    match cs, h hcontracts with
    | a :: b :: cs, _ =>
      cases heq
      exact contracts_iff.mpr ⟨c, cs, rfl, hc⟩
  · intro hcontracts
    obtain ⟨c, more, rfl, hc⟩ := contracts_iff.mp hcontracts
    exact contracts_iff.mpr ⟨c, _, rfl, hc⟩

theorem wordLexeme_append (h : (wordLexeme (cs ++ rest)).2 ≤ cs.length) : wordLexeme (cs ++ rest) = wordLexeme cs := by
  have hletters : (cs ++ rest).takeWhile Char.isAlpha = cs.takeWhile Char.isAlpha := by
    refine takeWhile_append_short (Nat.le_trans ?_ h)
    unfold wordLexeme
    dsimp only
    split <;> simp
  unfold wordLexeme at h ⊢
  rw [hletters] at h ⊢
  dsimp only at h ⊢
  rw [List.length_map, List.drop_append_of_le_length (length_takeWhile_le _ _)] at h ⊢
  cases hlast : ((cs.takeWhile Char.isAlpha).map Char.toUpper).getLast? == some 'N' with
  | false => rfl
  | true =>
    rw [contracts_append]
    intro hcontracts
    rw [hlast, hcontracts] at h
    have hle : (cs.takeWhile Char.isAlpha).length + 2 ≤ cs.length := h
    rw [List.length_drop]
    omega

theorem labelLexeme_closed {digits : List Char} (hne : digits ≠ []) (hdigits : ∀ d ∈ digits, d.isDigit = true)
    (rest : List Char) : labelLexeme (digits ++ ')' :: rest) = ([.label (saturated digits)], digits.length + 2) := by
  have hstop : ∀ d ∈ (')' :: rest).head?, d.isDigit = false := by
    intro d hd
    cases hd
    rfl
  unfold labelLexeme
  rw [takeWhile_append_eq hdigits hstop]
  dsimp only
  rw [List.drop_left, List.isEmpty_eq_false_iff.mpr hne]
  rfl

theorem labelLexeme_cases (cs : List Char) :
    (∃ digits rest, cs = digits ++ ')' :: rest ∧ digits ≠ [] ∧ ∀ d ∈ digits, d.isDigit = true) ∨
      labelLexeme cs = ([.punctuation '('], 1) := by
  unfold labelLexeme
  dsimp only
  split
  · next hclosed =>
    rw [Bool.and_eq_true, Bool.not_eq_true', List.isEmpty_eq_false_iff, beq_iff_eq] at hclosed
    obtain ⟨rest, hrest⟩ := List.head?_eq_some_iff.mp hclosed.2
    refine .inl ⟨cs.takeWhile Char.isDigit, rest, ?_, hclosed.1, List.all_eq_true.mp List.all_takeWhile⟩
    rw [← hrest, List.prefix_iff_eq_append.mp (List.takeWhile_prefix _)]
  · exact .inr rfl

theorem labelLexeme_append (h : (labelLexeme (cs ++ rest)).2 ≤ cs.length + 1) :
    labelLexeme (cs ++ rest) = labelLexeme cs := by
  rcases labelLexeme_cases cs with ⟨digits, more, rfl, hne, hdigits⟩ | hopen
  · rw [List.append_assoc, List.cons_append, labelLexeme_closed hne hdigits, labelLexeme_closed hne hdigits]
  · rcases labelLexeme_cases (cs ++ rest) with ⟨digits, more, heq, hne, hdigits⟩ | hopen'
    · -- the label ends within the front part
      rw [heq, labelLexeme_closed hne hdigits] at h
      have hle : (digits ++ [')']).length ≤ cs.length := by
        rw [List.length_append]
        exact Nat.le_of_succ_le_succ h
      have hprefix : digits ++ [')'] <+: cs ++ rest := ⟨more, by rw [heq, List.append_assoc, List.singleton_append]⟩
      obtain ⟨more', rfl⟩ := List.prefix_of_prefix_length_le hprefix (List.prefix_append cs rest) hle
      rw [List.append_assoc, List.singleton_append, labelLexeme_closed hne hdigits] at hopen
      cases hopen
    · rw [hopen, hopen']

/-- The lexeme that a text begins with does not depend on what follows it. -/
theorem lexeme_append (h : (lexeme c (cs ++ rest)).2 ≤ cs.length + 1) : lexeme c (cs ++ rest) = lexeme c cs := by
  unfold lexeme at h ⊢
  split at h
  · next hc =>
    rw [if_pos hc, if_pos hc, ← List.cons_append]
    rw [← List.cons_append] at h
    rw [takeWhile_append_short h]
  · next hc =>
    rw [if_neg hc, if_neg hc]
    split at h
    · next halpha => rw [if_pos halpha, if_pos halpha, ← List.cons_append, wordLexeme_append h]
    · next halpha =>
      rw [if_neg halpha, if_neg halpha]
      split at h
      · exact labelLexeme_append h
      · cases cs with
        | cons x cs => rfl
        | nil =>
          split at h
          · exact absurd h (by decide)
          · next harrow => rw [if_neg harrow]; rfl
      all_goals rfl

theorem take_takeWhile (p : Char → Bool) (cs : List Char) : cs.take (cs.takeWhile p).length = cs.takeWhile p :=
  (List.prefix_iff_eq_take.mp (List.takeWhile_prefix p)).symm

theorem wordLexeme_solid {x : Char} (hx : x ∈ cs.take (wordLexeme cs).2) : isBlank x = false := by
  have hletter {y : Char} (hy : y ∈ cs.takeWhile Char.isAlpha) : isBlank y = false :=
    isBlank_eq_false (.inl (List.all_eq_true.mp List.all_takeWhile y hy))
  unfold wordLexeme at hx
  dsimp only at hx
  split at hx
  · next hcontracts =>
    obtain ⟨e, more, hdrop, he⟩ := contracts_iff.mp (Bool.and_eq_true_iff.mp hcontracts).2
    rw [List.length_map] at hx hdrop
    rw [List.take_add, take_takeWhile, hdrop, List.mem_append] at hx
    rcases hx with hx | hx
    · exact hletter hx
    · simp only [List.take_succ_cons, List.take_zero, List.mem_cons, List.not_mem_nil, or_false] at hx
      rcases hx with rfl | rfl
      · rfl
      · rcases he with rfl | rfl <;> rfl
  · rw [List.length_map, take_takeWhile] at hx
    exact hletter hx

theorem labelLexeme_solid {x : Char} (hx : x ∈ ('(' :: cs).take (labelLexeme cs).2) : isBlank x = false := by
  rcases labelLexeme_cases cs with ⟨digits, rest, rfl, hne, hdigits⟩ | hopen
  · have htake : ('(' :: (digits ++ ')' :: rest)).take (digits.length + 2) = '(' :: (digits ++ [')']) := by
      rw [List.take_succ_cons, List.take_length_add_append]
      rfl
    rw [labelLexeme_closed hne hdigits, htake, List.mem_cons, List.mem_append, List.mem_singleton] at hx
    rcases hx with rfl | hx | rfl
    · rfl
    · exact isBlank_eq_false (.inr (hdigits x hx))
    · rfl
  · rw [hopen] at hx
    cases List.mem_singleton.mp hx
    rfl

/-- No lexeme has a blank in it. -/
theorem lexeme_solid (hc : isBlank c = false) {x : Char} (hx : x ∈ (c :: cs).take (lexeme c cs).2) :
    isBlank x = false := by
  have hself (hx : x ∈ (c :: cs).take 1) : isBlank x = false := by
    cases List.mem_singleton.mp hx
    exact hc
  unfold lexeme at hx
  split at hx
  · rw [take_takeWhile] at hx
    exact isBlank_eq_false (.inr (List.all_eq_true.mp List.all_takeWhile x hx))
  split at hx
  · exact wordLexeme_solid hx
  split at hx
  · exact labelLexeme_solid hx
  · split at hx
    · next harrow =>
      obtain ⟨more, rfl⟩ := List.head?_eq_some_iff.mp (beq_iff_eq.mp harrow)
      simp only [List.take_succ_cons, List.take_zero, List.mem_cons, List.not_mem_nil, or_false] at hx
      rcases hx with rfl | rfl <;> rfl
    · exact hself hx
  all_goals exact hself hx

theorem lexeme_le_of_blank (hc : isBlank c = false) (hd : isBlank d = true) (cs rest : List Char) :
    (lexeme c (cs ++ d :: rest)).2 ≤ cs.length + 1 := by
  refine Nat.le_of_not_lt fun hlt ↦ ?_
  have hmem : d ∈ (c :: (cs ++ d :: rest)).take (lexeme c (cs ++ d :: rest)).2 := by
    obtain ⟨k, hk⟩ := Nat.exists_eq_add_of_lt hlt
    rw [hk, ← List.cons_append, Nat.add_assoc, ← List.length_cons (a := c), List.take_length_add_append,
      List.take_succ_cons]
    exact List.mem_append_right _ List.mem_cons_self
  rw [lexeme_solid hc hmem] at hd
  cases hd

theorem scan_of_not_blank {p : Position} (hc : isBlank c = false) (cs : List Char) :
    (scan 0 p (c :: cs)).1 =
      (lexeme c cs).1.map (⟨·, p⟩) ++ (scan ((lexeme c cs).2 - 1) (p.advance c) cs).1 := by
  rw [scan, if_neg (by rw [hc]; exact Bool.false_ne_true)]

theorem scan_of_blank {p : Position} (hc : isBlank c = true) (cs : List Char) :
    scan 0 p (c :: cs) = scan 0 (p.advance c) cs := by
  rw [scan, if_pos hc]

theorem kinds_scan (covered : Nat) (p q : Position) (cs : List Char) :
    (scan covered p cs).1.map (·.kind) = (scan covered q cs).1.map (·.kind) := by
  fun_induction scan covered p cs generalizing q with
  | case1 => rfl
  | case2 p c cs k ih => exact ih _
  | case3 p c cs hblank ih =>
    rw [scan_of_blank hblank]
    exact ih _
  | case4 p c cs hblank l behind ih =>
    rw [scan_of_not_blank (Bool.eq_false_iff.mpr hblank), List.map_append, List.map_append, ih (q.advance c)]
    simp only [List.map_map]
    rfl

/-- A text can be cut before a blank. -/
theorem scan_append_blank {covered : Nat} {p : Position} {front : List Char} (hd : isBlank d = true)
    (hcovered : covered ≤ front.length) (rest : List Char) :
    (scan covered p (front ++ d :: rest)).1 = (scan covered p front).1 ++ (scan 0 (p.after front) (d :: rest)).1 := by
  fun_induction scan covered p front with
  | case1 p covered =>
    cases Nat.le_zero.mp hcovered
    rfl
  | case2 p c cs k ih => exact ih (Nat.le_of_succ_le_succ hcovered)
  | case3 p c cs hblank ih =>
    rw [List.cons_append, scan_of_blank hblank]
    exact ih (Nat.zero_le _)
  | case4 p c cs hblank l behind ih =>
    have hle := lexeme_le_of_blank (Bool.eq_false_iff.mpr hblank) hd cs rest
    have hlexeme : lexeme c (cs ++ d :: rest) = l := lexeme_append hle
    rw [hlexeme] at hle
    rw [List.cons_append, scan_of_not_blank (Bool.eq_false_iff.mpr hblank), hlexeme, ih (by omega), List.append_assoc]
    rfl

theorem scan_blanks {p : Position} (h : ∀ c ∈ cs, isBlank c = true) : (scan 0 p cs).1 = [] := by
  induction cs generalizing p with
  | nil => rfl
  | cons c cs ih =>
    rw [scan_of_blank (h c List.mem_cons_self)]
    exact ih fun d hd ↦ h d (List.mem_cons_of_mem c hd)

/-- The blanks at the end of a text make no difference. -/
theorem scan_trimEnd (p : Position) (cs : List Char) : (scan 0 p (trimEnd cs)).1 = (scan 0 p cs).1 := by
  have hsplit : trimEnd cs ++ (cs.reverse.takeWhile isBlank).reverse = cs := by
    rw [trimEnd, ← List.reverse_append, List.takeWhile_append_dropWhile, List.reverse_reverse]
  have hblank : ∀ c ∈ (cs.reverse.takeWhile isBlank).reverse, isBlank c = true := fun c hc ↦
    List.all_eq_true.mp List.all_takeWhile c (List.mem_reverse.mp hc)
  generalize (cs.reverse.takeWhile isBlank).reverse = blanks at hsplit hblank
  conv => rhs; rw [← hsplit]
  cases blanks with
  | nil => rw [List.append_nil]
  | cons d blanks =>
    rw [scan_append_blank (hblank d List.mem_cons_self) (Nat.zero_le _), scan_blanks hblank, List.append_nil]

end Token

end Intercal
