import Intercal.Proofs.Spans
import Mathlib.Data.List.Forall2

namespace Intercal

open Text

namespace Text

variable {c d : Char} {cs ds : List Char}

/-- The second text is the first, in which some ASCII letters have another case. -/
def Recased (cs ds : List Char) : Prop := List.Forall₂ (fun c d ↦ d = c.toUpper ∨ d = c.toLower) cs ds

theorem recased_iff : Recased cs ds ↔ cs.map Char.toUpper = ds.map Char.toUpper := by
  have hsame (c d : Char) : (d = c.toUpper ∨ d = c.toLower) ↔ c.toUpper = d.toUpper := by
    simp only [← Char.toNat_inj, toNat_toLower, toNat_toUpper]
    grind
  simp only [Recased, hsame]
  rw [← List.forall₂_eq_eq_eq, List.forall₂_map_left_iff, List.forall₂_map_right_iff]

theorem toUpper_of_not_isAlpha (h : c.isAlpha = false) : c.toUpper = c := by
  rw [← Bool.not_eq_true, isAlpha_iff] at h
  rw [← Char.toNat_inj, toNat_toUpper, if_neg (by omega)]

theorem isAlpha_toUpper (c : Char) : c.toUpper.isAlpha = c.isAlpha := by
  rw [Bool.eq_iff_iff, isAlpha_iff, isAlpha_iff, toNat_toUpper]
  split <;> omega

theorem toUpper_toUpper (c : Char) : c.toUpper.toUpper = c.toUpper := by
  rw [← Char.toNat_inj, toNat_toUpper c.toUpper, if_neg]
  rw [toNat_toUpper]
  split <;> omega

/-- What is the same for all letters does not depend on their case. -/
theorem apply_toUpper {α : Type} (f : Char → α) (hf : ∀ x y, x.isAlpha = true → y.isAlpha = true → f x = f y)
    (c : Char) : f c.toUpper = f c := by
  cases hc : c.isAlpha with
  | false => rw [toUpper_of_not_isAlpha hc]
  | true => exact hf _ _ (by rw [isAlpha_toUpper, hc]) hc

theorem isDigit_toUpper (c : Char) : c.toUpper.isDigit = c.isDigit := by
  refine apply_toUpper Char.isDigit (fun x y hx hy ↦ ?_) c
  rw [Bool.eq_false_iff.mpr (not_isDigit_of_isAlpha hx), Bool.eq_false_iff.mpr (not_isDigit_of_isAlpha hy)]

theorem isBlank_toUpper (c : Char) : isBlank c.toUpper = isBlank c := by
  refine apply_toUpper isBlank (fun x y hx hy ↦ ?_) c
  rw [isBlank_eq_false (.inl hx), isBlank_eq_false (.inl hy)]

theorem utf8Size_of_isAlpha (h : c.isAlpha = true) : c.utf8Size = 1 := by
  rw [isAlpha_iff] at h
  rw [Char.utf8Size_eq_one_iff, UInt32.le_iff_toNat_le]
  change c.toNat ≤ 127
  omega

theorem utf8Size_toUpper (c : Char) : c.toUpper.utf8Size = c.utf8Size := by
  refine apply_toUpper Char.utf8Size (fun x y hx hy ↦ ?_) c
  rw [utf8Size_of_isAlpha hx, utf8Size_of_isAlpha hy]

theorem toUpper_eq_iff (hd : d.isAlpha = false) (c : Char) : c.toUpper = d ↔ c = d := by
  have hne {x : Char} (hx : x.isAlpha = true) : x ≠ d := by
    rintro rfl
    rw [hd] at hx
    cases hx
  refine iff_of_eq (apply_toUpper (· = d) (fun x y hx hy ↦ ?_) c)
  simp [hne hx, hne hy]

theorem takeWhile_map_toUpper {p : Char → Bool} (hp : ∀ c, p c.toUpper = p c) (cs : List Char) :
    (cs.map Char.toUpper).takeWhile p = (cs.takeWhile p).map Char.toUpper := by
  rw [List.takeWhile_map]
  congr 2
  exact funext hp

theorem dropWhile_map_toUpper {p : Char → Bool} (hp : ∀ c, p c.toUpper = p c) (cs : List Char) :
    (cs.map Char.toUpper).dropWhile p = (cs.dropWhile p).map Char.toUpper := by
  rw [List.dropWhile_map]
  congr 2
  exact funext hp

theorem trim_map_toUpper (cs : List Char) : trim (cs.map Char.toUpper) = (trim cs).map Char.toUpper := by
  simp only [trim, trimStart, trimEnd, dropWhile_map_toUpper isBlank_toUpper, ← List.map_reverse]

end Text

namespace Token

theorem digits_map_toUpper (cs : List Char) :
    (cs.map Char.toUpper).takeWhile Char.isDigit = cs.takeWhile Char.isDigit := by
  rw [takeWhile_map_toUpper isDigit_toUpper]
  have hdigit : ∀ d ∈ cs.takeWhile Char.isDigit, d.toUpper = d := by
    intro d hd
    have hisDigit := List.all_eq_true.mp List.all_takeWhile d hd
    apply toUpper_of_not_isAlpha
    by_contra halpha
    exact not_isDigit_of_isAlpha (Bool.not_eq_false _ ▸ halpha) hisDigit
  exact (List.map_congr_left hdigit).trans (List.map_id _)

theorem head?_map_toUpper {d : Char} (hd : d.isAlpha = false) (cs : List Char) :
    ((cs.map Char.toUpper).head? == some d) = (cs.head? == some d) := by
  cases cs with
  | nil => rfl
  | cons c cs =>
    rw [Bool.eq_iff_iff]
    simpa using toUpper_eq_iff hd c

theorem contracts_map_toUpper (cs : List Char) : contracts (cs.map Char.toUpper) = contracts cs := by
  rw [Bool.eq_iff_iff, contracts_iff, contracts_iff]
  constructor
  · rintro ⟨t, rest, heq, ht⟩
    obtain ⟨q, cs, rfl, hq, hcs⟩ := List.map_eq_cons_iff.mp heq
    obtain ⟨x, cs, rfl, hx, -⟩ := List.map_eq_cons_iff.mp hcs
    refine ⟨x, cs, by rw [(toUpper_eq_iff rfl q).mp hq], ?_⟩
    rcases ht with rfl | rfl
    · exact eq_of_toUpper_eq hx rfl
    · exact .inr ((eq_of_toUpper_eq hx rfl).elim id id)
  · rintro ⟨t, rest, rfl, ht⟩
    refine ⟨t.toUpper, rest.map Char.toUpper, rfl, .inl ?_⟩
    rcases ht with rfl | rfl <;> rfl

theorem labelLexeme_map_toUpper (cs : List Char) : labelLexeme (cs.map Char.toUpper) = labelLexeme cs := by
  unfold labelLexeme
  dsimp only
  rw [digits_map_toUpper, ← List.map_drop, head?_map_toUpper rfl]

theorem wordLexeme_map_toUpper (cs : List Char) : wordLexeme (cs.map Char.toUpper) = wordLexeme cs := by
  have hletters : ((cs.map Char.toUpper).takeWhile Char.isAlpha).map Char.toUpper =
      (cs.takeWhile Char.isAlpha).map Char.toUpper := by
    rw [takeWhile_map_toUpper isAlpha_toUpper, List.map_map]
    exact List.map_congr_left fun c _ ↦ toUpper_toUpper c
  unfold wordLexeme
  dsimp only
  rw [hletters, ← List.map_drop, contracts_map_toUpper]

/-- What a text begins with does not depend on the case of its letters. -/
theorem lexeme_map_toUpper (c : Char) (cs : List Char) : lexeme c.toUpper (cs.map Char.toUpper) = lexeme c cs := by
  cases halpha : c.isAlpha with
  | true =>
    have hupper : c.toUpper.isAlpha = true := by rw [isAlpha_toUpper, halpha]
    rw [lexeme_of_alpha halpha, lexeme_of_alpha hupper, ← List.map_cons, wordLexeme_map_toUpper]
  | false =>
    rw [toUpper_of_not_isAlpha halpha]
    by_cases hdigit : c.isDigit = true
    · have hdigits := digits_map_toUpper (c :: cs)
      rw [List.map_cons, toUpper_of_not_isAlpha halpha] at hdigits
      rw [lexeme_of_digit hdigit, lexeme_of_digit hdigit, hdigits]
    · unfold lexeme
      rw [if_neg hdigit, if_neg hdigit, halpha, if_neg Bool.false_ne_true, if_neg Bool.false_ne_true]
      split
      · exact labelLexeme_map_toUpper cs
      · rw [head?_map_toUpper rfl]
      all_goals rfl

theorem scan_map_toUpper (covered : Nat) (p : Position) (cs : List Char) :
    scan covered p (cs.map Char.toUpper) = scan covered p cs := by
  have hadvance (p : Position) (c : Char) : p.advance c.toUpper = p.advance c := by
    have hnewline : c.toUpper = '\n' ↔ c = '\n' := toUpper_eq_iff rfl c
    simp only [Position.advance, utf8Size_toUpper, hnewline]
  induction cs generalizing covered p with
  | nil => rfl
  | cons c cs ih =>
    cases covered with
    | zero => simp only [List.map_cons, scan, hadvance, isBlank_toUpper, lexeme_map_toUpper, ih]
    | succ k => simp only [List.map_cons, scan, hadvance, ih]

theorem tokenize_eq_of_recased {source source' : List Char} (h : Recased source source') :
    tokenize source' = tokenize source := by
  rw [tokenize, tokenize, ← scan_map_toUpper, ← recased_iff.mp h, scan_map_toUpper]

/-- From another place on, the tokens stand as much further. -/
theorem offsets_scan {p q : Position} {d : Nat} (h : p.offset = q.offset + d) (covered : Nat) (cs : List Char) :
    (scan covered p cs).1.map (·.position.offset) = (scan covered q cs).1.map (·.position.offset + d) := by
  have hadvance {p q : Position} (h : p.offset = q.offset + d) (c : Char) :
      (p.advance c).offset = (q.advance c).offset + d := by
    rw [Position.offset_advance, Position.offset_advance, h]
    omega
  induction cs generalizing covered p q with
  | nil => rfl
  | cons c cs ih =>
    cases covered with
    | succ k => exact ih (hadvance h c) k
    | zero =>
      cases hc : isBlank c with
      | true =>
        rw [scan_of_blank hc, scan_of_blank hc]
        exact ih (hadvance h c) 0
      | false =>
        rw [scan_of_not_blank hc, scan_of_not_blank hc, List.map_append, List.map_append, ih (hadvance h c)]
        simp [h]

/-- A blank parts the tokens: those of the text behind it are read as if it began there. -/
theorem entries_append_blank (a b : List Char) {w : Char} (hw : isBlank w = true) :
    ∃ behind, entries (a ++ w :: b) = (entries a).dropLast ++ behind ∧ behind.map (·.1) = stream b ∧
      behind.map (·.2.offset) = (offsets b).map (· + octets (a ++ [w])) := by
  have hscan : (tokenize (a ++ w :: b)).1 = (tokenize a).1 ++ (scan 0 (Position.start.after (a ++ [w])) b).1 := by
    rw [tokenize, scan_append_blank hw (Nat.zero_le _), scan_of_blank hw, after_append]
    rfl
  have hkinds := kinds_scan 0 (Position.start.after (a ++ [w])) .start b
  have hoffsets : (scan 0 (Position.start.after (a ++ [w])) b).1.map (·.position.offset) =
      (tokenize b).1.map (·.position.offset + octets (a ++ [w])) :=
    offsets_scan (Position.offset_after .start (a ++ [w])) 0 b
  have hend : octets (a ++ w :: b) = octets b + octets (a ++ [w]) := by
    rw [List.append_cons, octets_append, Nat.add_comm]
  refine ⟨(scan 0 (Position.start.after (a ++ [w])) b).1.map (fun t ↦ (some t.kind, t.position)) ++
    [(none, Position.start.after (a ++ w :: b))], ?_, ?_, ?_⟩
  · simp [entries, hscan, end_tokenize]
  · simpa [stream, entries, tokenize, Function.comp_def] using congrArg (List.map some) hkinds
  · simp [offsets, entries, end_tokenize, Position.offset_start_after, hend, Function.comp_def, hoffsets]

end Token

namespace Statement

def capitals (st : Statement) : Statement := { st with text := String.ofList (st.text.toList.map Char.toUpper) }

theorem splitOctets_map_toUpper (n : Nat) (cs : List Char) :
    splitOctets n (cs.map Char.toUpper) =
      ((splitOctets n cs).1.map Char.toUpper, (splitOctets n cs).2.map Char.toUpper) := by
  induction cs generalizing n with
  | nil => rfl
  | cons c cs ih =>
    simp only [List.map_cons, splitOctets, utf8Size_toUpper, ih]
    split <;> rfl

theorem readAll_map_toUpper (stop covered index : Nat) (source : List Char) (ts : List Token) :
    readAll stop covered index (source.map Char.toUpper) ts = (readAll stop covered index source ts).map capitals := by
  induction ts generalizing covered index source with
  | nil => rfl
  | cons t ts ih =>
    cases covered with
    | succ k => exact ih k index source
    | zero =>
      rcases hread : readStatement (t :: ts) with ⟨header, body, rest⟩
      rw [readAll_cons hread rfl, readAll_cons hread rfl, splitOctets_map_toUpper, ih, trim_map_toUpper, List.map_cons]
      simp [capitals]

theorem parse_map_toUpper (source : List Char) : parse (source.map Char.toUpper) = (parse source).map capitals := by
  have htrim : trimStart (source.map Char.toUpper) = (trimStart source).map Char.toUpper :=
    dropWhile_map_toUpper isBlank_toUpper source
  simp only [parse, Token.tokenize, Token.scan_map_toUpper, htrim, readAll_map_toUpper]

theorem of_capitals_eq {st st' : Statement} (h : st.capitals = st'.capitals) :
    st' = { st with text := st'.text } ∧ Recased st.text.toList st'.text.toList := by
  obtain ⟨index, position, header, body, text⟩ := st
  obtain ⟨index', position', header', body', text'⟩ := st'
  simp only [capitals, Statement.mk.injEq, String.ofList_inj] at h
  obtain ⟨rfl, rfl, rfl, rfl, htext⟩ := h
  exact ⟨rfl, recased_iff.mpr htext⟩

theorem parse_recased {source source' : List Char} (h : Recased source source') :
    List.Forall₂ (fun st st' ↦ st' = { st with text := st'.text } ∧ Recased st.text.toList st'.text.toList)
      (parse source) (parse source') := by
  have hparse : (parse source).map capitals = (parse source').map capitals := by
    rw [← parse_map_toUpper, ← parse_map_toUpper, recased_iff.mp h]
  rw [← List.forall₂_eq_eq_eq, List.forall₂_map_left_iff, List.forall₂_map_right_iff] at hparse
  exact hparse.imp fun st st' ↦ of_capitals_eq

end Statement

namespace Token

/-- A text with a blank in it has the tokens of what stands before the blank and then those of what stands behind it,
which are as much further in the text. The case of letters changes no token, and of the statements only their texts. -/
theorem composes_and_ignores_case :
    (∀ (a b : List Char) (w : Char), isBlank w = true → ∃ behind,
      entries (a ++ w :: b) = (entries a).dropLast ++ behind ∧ behind.map (·.1) = stream b ∧
        behind.map (·.2.offset) = (offsets b).map (· + octets (a ++ [w]))) ∧
    ∀ source source' : List Char, Recased source source' →
      entries source' = entries source ∧
        List.Forall₂ (fun st st' ↦ st' = { st with text := st'.text } ∧ Recased st.text.toList st'.text.toList)
          (Statement.parse source) (Statement.parse source') := by
  constructor
  · intro a b w hw
    exact entries_append_blank a b hw
  · intro source source' h
    refine ⟨?_, Statement.parse_recased h⟩
    rw [entries, entries, tokenize_eq_of_recased h]

def whisper : List Char := "Please don't .1 <- .2¢#v2".toList

def shout : List Char := "pLEASE DON't .1 <- .2¢#V2".toList

theorem composes_and_ignores_case_shout :
    isBlank '\n' = true ∧
      (∃ behind, entries "DON\n'T¢(1)".toList = (entries "DON".toList).dropLast ++ behind ∧
        behind.map (·.1) = stream "'T¢(1)".toList ∧ behind.map (·.2.offset) = [4, 5, 6, 8, 11]) ∧
      Recased whisper shout ∧ entries shout = entries whisper ∧
      ∃ st, Statement.parse whisper = [st] ∧ st.body.isMalformed = false ∧
        Statement.parse shout = [{ st with text := String.ofList shout }] := by
  have hoffsets : (offsets "'T¢(1)".toList).map (· + octets ("DON".toList ++ ['\n'])) = [4, 5, 6, 8, 11] := by
    decide +kernel
  have hcased : Recased whisper shout := recased_iff.mpr (by decide +kernel)
  have hwhisper : (Statement.parse whisper).map (·.body.isMalformed) = [false] := by decide +kernel
  have hshout : (Statement.parse shout).map (·.text) = [String.ofList shout] := by decide +kernel
  obtain ⟨hparts, hcase⟩ := composes_and_ignores_case
  obtain ⟨behind, hentries, hkinds, hbehind⟩ := hparts "DON".toList "'T¢(1)".toList '\n' rfl
  obtain ⟨hsame, hstatements⟩ := hcase whisper shout hcased
  obtain ⟨st, hst, hbody⟩ := List.map_eq_singleton_iff.mp hwhisper
  obtain ⟨st', hst', htext⟩ := List.map_eq_singleton_iff.mp hshout
  rw [hst, hst', List.forall₂_cons] at hstatements
  refine ⟨rfl, ⟨behind, hentries, hkinds, hbehind.trans hoffsets⟩, hcased, hsame, st, hst, hbody, ?_⟩
  rw [hst', hstatements.1.1, htext]

end Token

end Intercal
