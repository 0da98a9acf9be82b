import Intercal.Proofs.Cuts
import Intercal.Proofs.Tiling
import Mathlib.Data.List.DropRight

namespace Intercal

open Text Token

namespace Statement

open Reader

variable {ts us rest : List Token}

theorem readVariables_local : readVariables.Local := .separated rfl Expr.readVariable_local

theorem readCalculation_local : readCalculation.Local := by
  refine Expr.readVariable_local.bind fun v ↦ (Local.takeIf (by decide)).bind fun _ ↦ .ite ?_ ?_
  · refine Expr.readList_local.bind fun subs ↦ Local.take.bind fun k ↦ .ite ?_ .fail
    exact Expr.read_local.bind fun value ↦ .ite (.pure _) .fail
  · refine Local.take.bind fun k ↦ .ite (.ite ?_ (Expr.read_local.bind fun value ↦ .pure _)) .fail
    exact (Local.separated (by decide) Expr.read_local).bind fun dims ↦ .pure _

theorem readGerund_local : readGerund.Local := by
  refine .peek_bind (fun k? ↦ ?_) fun k hk ↦ .inl ?_
  · split
    · next w =>
      refine (Local.ofOption _).bind fun g ↦ Local.take.bind fun _ ↦ ?_
      cases g with
      | readingOut | writingIn | comingFrom => exact (Local.expect (by decide)).bind fun _ ↦ .pure _
      | _ => exact (Local.pure ()).bind fun _ ↦ .pure _
    · exact .fail
  · -- `DO` and `PLEASE` are no gerunds
    cases k with
    | word w =>
      simp only [plain, Bool.and_eq_false_iff, bne_eq_false_iff_eq] at hk
      rcases hk with rfl | rfl <;> rfl
    | label n => rfl
    | _ => cases hk

theorem readAbstention_local : readAbstention.Local := by
  refine .peek_bind (fun k? ↦ ?_) fun k hk ↦ ?_
  · split
    · exact Local.take.bind fun _ ↦ .pure _
    · exact (Local.separated rfl readGerund_local).bind fun _ ↦ .pure _
  · cases k with
    | label n => exact .inr fun t ts ↦ List.suffix_rfl
    | _ => exact .inl rfl

theorem readVerb_local (verb : String) : (readVerb verb).Local := by
  unfold readVerb
  split
  · exact Expr.read_local.bind fun _ ↦ .pure _
  · exact Expr.read_local.bind fun _ ↦ .pure _
  · exact (Local.expect (by decide)).bind fun _ ↦ readAbstention_local.bind fun _ ↦ .pure _
  · exact readAbstention_local.bind fun _ ↦ .pure _
  · exact readVariables_local.bind fun _ ↦ .pure _
  · exact readVariables_local.bind fun _ ↦ .pure _
  · exact readVariables_local.bind fun _ ↦ .pure _
  · exact readVariables_local.bind fun _ ↦ .pure _
  · exact (Local.expect (by decide)).bind fun _ ↦ (Local.separated rfl Expr.read_local).bind fun _ ↦ .pure _
  · exact (Local.expect (by decide)).bind fun _ ↦ readVariables_local.bind fun _ ↦ .pure _
  · exact (Local.expect (by decide)).bind fun _ ↦ .pure _
  · refine (Local.expect (by decide)).bind fun _ ↦ Local.take.bind fun k ↦ ?_
    split
    · exact .pure _
    · exact .fail
  · exact .fail

theorem readBody_local : readBody.Local := by
  have hnext (n : Nat) := (Local.expect (k := .word "NEXT") (by decide)).bind fun _ ↦ Local.pure (Body.next n)
  refine .peek_bind (fun k? ↦ ?_) fun k hk ↦ .inr fun t ts ↦ ?_
  · split
    · exact Local.take.bind fun _ ↦ hnext _
    · exact .ite (readCalculation_local.bind fun _ ↦ .pure _) .fail
    · exact Local.take.bind fun _ ↦ readVerb_local _
    · exact .fail
  · -- a label or a word is taken, whatever comes of it
    cases k with
    | label n => exact (hnext n).suffix ts
    | word w => exact (readVerb_local w).suffix ts
    | _ => cases hk

theorem readQualifiers_word {t : Token} {w : String} (hword : t.kind = .word w) (identified : Bool) (h : Header)
    (ts : List Token) :
    readQualifiers identified h (t :: ts) =
      if w = "DO" then readQualifiers true h ts
      else if w = "PLEASE" then readQualifiers true { h with please := true } ts
      else if identified && w = "NOT" then readQualifiers identified { h with enabled := false } ts
      else if identified && "NOT".toList.isPrefixOf w.toList then ({ h with enabled := false }, false, t :: ts)
      else (h, identified, t :: ts) := by
  obtain ⟨k, p⟩ := t
  cases hword
  rfl

theorem readQualifiers_percent {t : Token} (hpercent : t.kind = .punctuation '%') (identified : Bool) (h : Header)
    (ts : List Token) :
    readQualifiers identified h (t :: ts) =
      if identified then
        match ts with
        | ⟨.number n, _⟩ :: rest =>
          if n ≤ 100 then readQualifiers identified { h with percent := n } rest else (h, false, ts)
        | _ => (h, false, ts)
      else (h, identified, t :: ts) := by
  obtain ⟨k, p⟩ := t
  cases hpercent
  rw [readQualifiers.eq_def]
  rfl

theorem readQualifiers_cut {identified : Bool} {h : Header} (hrest : rest = [] ∨ starts rest = true)
    (hcut : Cut rest ts us) (hleft : rest <:+ (readQualifiers identified h ts).2.2) :
    (readQualifiers identified h us).1 = (readQualifiers identified h ts).1 ∧
      (readQualifiers identified h us).2.1 = (readQualifiers identified h ts).2.1 ∧
      Cut rest (readQualifiers identified h ts).2.2 (readQualifiers identified h us).2.2 := by
  have hplain {t : Token} {w : String} (hword : t.kind = .word w) (hdo : ¬ w = "DO") (hplease : ¬ w = "PLEASE") :
      plain t.kind = true := by
    simp [hword, plain, hdo, hplease]
  fun_induction readQualifiers identified h ts generalizing us with
  | case1 identified h =>
    cases hcut
    exact ⟨rfl, rfl, .here⟩
  | case2 identified h t ts hword ih =>
    cases hcut with
    | here => exact absurd hleft (not_suffix_of_taken (readQualifiers_suffix _ _ _))
    | token kind further =>
      rw [readQualifiers_word (kind.trans hword), if_pos rfl]
      exact ih further hleft
  | case3 identified h t ts hword hdo ih =>
    cases hcut with
    | here => exact absurd hleft (not_suffix_of_taken (readQualifiers_suffix _ _ _))
    | token kind further =>
      rw [readQualifiers_word (kind.trans hword), if_neg hdo, if_pos rfl]
      exact ih further hleft
  | case4 identified h t ts w hword hdo hplease hnot ih =>
    obtain ⟨u, us, rfl, kind, further⟩ := hcut.of_plain hrest (hplain hword hdo hplease)
    rw [readQualifiers_word (kind.trans hword), if_neg hdo, if_neg hplease, if_pos hnot]
    exact ih further hleft
  | case5 identified h t ts w hword hdo hplease hnot hnote =>
    obtain ⟨u, us, rfl, kind, further⟩ := hcut.of_plain hrest (hplain hword hdo hplease)
    rw [readQualifiers_word (kind.trans hword), if_neg hdo, if_neg hplease, if_neg hnot, if_pos hnote]
    exact ⟨rfl, rfl, hcut⟩
  | case6 identified h t ts w hword hdo hplease hnot hnote =>
    obtain ⟨u, us, rfl, kind, further⟩ := hcut.of_plain hrest (hplain hword hdo hplease)
    rw [readQualifiers_word (kind.trans hword), if_neg hdo, if_neg hplease, if_neg hnot, if_neg hnote]
    exact ⟨rfl, rfl, hcut⟩
  | case7 h t hpercent n p ts hle ih =>
    obtain ⟨u, us, rfl, kind, further⟩ := hcut.of_plain hrest (by rw [hpercent]; rfl)
    obtain ⟨⟨k, q⟩, us, rfl, rfl, last⟩ := further.of_plain hrest rfl
    rw [readQualifiers_percent (kind.trans hpercent), if_pos rfl]
    dsimp only
    rw [if_pos hle]
    exact ih last hleft
  | case8 h t hpercent n p ts hle =>
    obtain ⟨u, us, rfl, kind, further⟩ := hcut.of_plain hrest (by rw [hpercent]; rfl)
    obtain ⟨⟨k, q⟩, us, rfl, rfl, last⟩ := further.of_plain hrest rfl
    rw [readQualifiers_percent (kind.trans hpercent), if_pos rfl]
    dsimp only
    rw [if_neg hle]
    exact ⟨rfl, rfl, further⟩
  | case9 h t ts hpercent hnumber =>
    obtain ⟨u, us, rfl, kind, further⟩ := hcut.of_plain hrest (by rw [hpercent]; rfl)
    have hread : readQualifiers true h (u :: us) = (h, false, us) := by
      rw [readQualifiers_percent (kind.trans hpercent), if_pos rfl]
      cases further with
      | here => rfl
      | @token v w vs ws kind further =>
        obtain ⟨k, q⟩ := w
        obtain ⟨j, p⟩ := v
        cases kind
        cases k with
        | number n => exact absurd rfl (hnumber n p vs)
        | _ => rfl
    rw [hread]
    exact ⟨rfl, rfl, further⟩
  | case10 identified h t ts hpercent hnot =>
    obtain ⟨u, us, rfl, kind, further⟩ := hcut.of_plain hrest (by rw [hpercent]; rfl)
    rw [readQualifiers_percent (kind.trans hpercent), if_neg hnot]
    exact ⟨rfl, rfl, hcut⟩
  | case11 identified h t ts hword hpercent =>
    cases hcut with
    | here => exact ⟨rfl, rfl, .here⟩
    | @token _ u _ us kind further =>
      have hread : readQualifiers identified h (u :: us) = (h, identified, u :: us) := by
        unfold readQualifiers
        rw [kind]
        split
        · next w heq => exact absurd heq (hword w)
        · next heq => exact absurd heq hpercent
        · rfl
      rw [hread]
      exact ⟨rfl, rfl, .token kind further⟩

theorem readHeader_cut {t u : Token} (hrest : rest = [] ∨ starts rest = true) (hkind : u.kind = t.kind)
    (hcut : Cut rest ts us) (hleft : rest <:+ (readHeader (t :: ts)).2.2) :
    (readHeader (u :: us)).1 = (readHeader (t :: ts)).1 ∧ (readHeader (u :: us)).2.1 = (readHeader (t :: ts)).2.1 ∧
      Cut rest (readHeader (t :: ts)).2.2 (readHeader (u :: us)).2.2 := by
  obtain ⟨k, p⟩ := t
  obtain ⟨j, q⟩ := u
  cases hkind
  cases k with
  | label n => exact readQualifiers_cut hrest hcut hleft
  | _ => exact readQualifiers_cut hrest (.token rfl hcut) hleft

theorem starts_of_cut (hcut : Cut rest ts us) (h : starts us = true) : starts ts = true := by
  cases hcut with
  | here => cases h
  | @token t u ts us hkind further =>
    have hopens {t u : Token} (hkind : u.kind = t.kind) (h : opens u = true) : opens t = true := by
      rw [← h, opens, opens, isWord, isWord, isWord, isWord, hkind]
    obtain ⟨k, p⟩ := t
    obtain ⟨j, q⟩ := u
    cases hkind
    cases k with
    | label n =>
      cases further with
      | here => cases h
      | token hkind further => exact hopens hkind h
    | _ => exact h

theorem boundary_of_cut (hrest : rest = [] ∨ starts rest = true) (hcut : Cut rest ts us)
    (h : (us.isEmpty || starts us) = true) : (ts.isEmpty || starts ts) = true := by
  rw [Bool.or_eq_true, List.isEmpty_iff] at h ⊢
  rcases h with rfl | hstarts
  · cases hcut
    exact hrest
  · exact .inr (starts_of_cut hcut hstarts)

theorem skipToStart_cut (hcut : Cut rest ts us) (h : skipToStart ts = rest) : skipToStart us = [] := by
  induction hcut with
  | here => rfl
  | @token t u ts us hkind further ih =>
    rw [skipToStart] at h
    split at h
    · have hlength := further.length_eq
      rw [← h, List.length_cons] at hlength
      omega
    · next hstarts =>
      rw [skipToStart, if_neg fun hu ↦ hstarts (starts_of_cut (.token hkind further) hu)]
      exact ih h

/-- What the reader of a body comes to after a header decides on the whole statement. -/
theorem readStatement_of_header {header : Header} {identified : Bool} {after stopped : List Token} {body? : Option Body}
    (hheader : readHeader ts = (header, identified, after))
    (hbody : (if identified then readBody else fail) after = (body?, stopped)) :
    readStatement ts =
      body?.elim (header, .malformed, skipToStart (if stopped.length = ts.length then ts.drop 1 else stopped))
        fun body ↦ if stopped.isEmpty || starts stopped then (header, body, stopped)
          else (header, .malformed, skipToStart stopped) := by
  have hread : (if identified then readBody after else (none, after)) = (body?, stopped) := by
    rw [← hbody]
    split <;> rfl
  unfold readStatement
  rw [hheader]
  dsimp only
  rw [hread]
  cases body? <;> rfl

theorem readHeader_after {header : Header} {identified : Bool} {after : List Token}
    (hheader : readHeader ts = (header, identified, after)) : after <:+ ts := by
  have hafter := readHeader_suffix ts
  rwa [hheader] at hafter

/-- The next statement starts where the body stopped, or behind that. -/
theorem suffix_stopped {t : Token} {header : Header} {identified : Bool} {after stopped : List Token}
    {body? : Option Body} (hheader : readHeader (t :: ts) = (header, identified, after))
    (hbody : (if identified then readBody else fail) after = (body?, stopped)) (hsuffix : stopped <:+ after) :
    (readStatement (t :: ts)).2.2 <:+ stopped := by
  have hskip (vs : List Token) : skipToStart vs <:+ vs := (skipToStart_firstStart vs).suffix
  rw [readStatement_of_header hheader hbody]
  cases body? with
  | some body =>
    rw [Option.elim_some]
    split
    · exact List.suffix_rfl
    · exact hskip stopped
  | none =>
    rw [Option.elim_none]
    split
    · next hlength =>
      rw [(hsuffix.trans (readHeader_after hheader)).eq_of_length hlength]
      exact (hskip ts).trans (List.suffix_cons t ts)
    · exact hskip stopped

/-- What is read of a statement does not change if nothing follows it. -/
theorem readStatement_cut {t u : Token} {header : Header} {body : Body} (hkind : u.kind = t.kind)
    (hcut : Cut rest ts us) (hread : readStatement (t :: ts) = (header, body, rest)) :
    readStatement (u :: us) = (header, body, []) := by
  have hrest := readStatement_boundary (t :: ts)
  rcases hheader : readHeader (t :: ts) with ⟨header₁, identified, after⟩
  have hlocal : (if identified then readBody else fail).Local := .ite readBody_local .fail
  rcases hbody : (if identified then readBody else fail) after with ⟨body?, stopped⟩
  have hsuffix := hlocal.suffix after
  rw [hbody] at hsuffix
  have hstopped := suffix_stopped hheader hbody hsuffix
  rw [hread] at hrest hstopped
  obtain ⟨hheader₁, hidentified, hafter⟩ :=
    readHeader_cut hrest hkind hcut (by rw [hheader]; exact hstopped.trans hsuffix)
  rcases hheader' : readHeader (u :: us) with ⟨header₂, identified₂, after₂⟩
  rw [hheader, hheader'] at hheader₁ hidentified hafter
  cases hheader₁
  cases hidentified
  obtain ⟨hbody?, hstopped'⟩ := hlocal.cut hrest hafter (by rw [hbody]; exact hstopped)
  rcases hbody' : (if identified then readBody else fail) after₂ with ⟨body?₂, stopped₂⟩
  rw [hbody, hbody'] at hbody? hstopped'
  cases hbody?
  rw [readStatement_of_header hheader hbody] at hread
  rw [readStatement_of_header hheader' hbody']
  cases body? with
  | some body₁ =>
    rw [Option.elim_some] at hread ⊢
    split at hread
    · cases hread
      cases hstopped' with
      | here => rfl
      | token _ further =>
        have hlength := further.length_eq
        rw [List.length_cons] at hlength
        omega
    · next hboundary =>
      cases hread
      rw [if_neg fun hboundary' ↦ hboundary (boundary_of_cut hrest hstopped' hboundary'), skipToStart_cut hstopped' rfl]
  | none =>
    rw [Option.elim_none] at hread ⊢
    have hlength : stopped.length = stopped₂.length + rest.length := hstopped'.length_eq
    have hlength' := hcut.length_eq
    simp only [List.length_cons, List.drop_succ_cons, List.drop_zero] at hread ⊢
    by_cases hnone : stopped.length = ts.length + 1
    · rw [if_pos hnone] at hread
      cases hread
      rw [if_pos (by omega), skipToStart_cut hcut rfl]
    · rw [if_neg hnone] at hread
      cases hread
      rw [if_neg (by omega), skipToStart_cut hstopped' rfl]

theorem trimEnd_trimEnd (cs : List Char) : trimEnd (trimEnd cs) = trimEnd cs := by
  rw [trimEnd, trimEnd, List.reverse_reverse, List.dropWhile_idempotent]

theorem trimEnd_cons {c : Char} (hc : isBlank c = false) (cs : List Char) : ∃ rest, trimEnd (c :: cs) = c :: rest := by
  have hsplit : trimEnd (c :: cs) ++ ((c :: cs).reverse.takeWhile isBlank).reverse = c :: cs := by
    rw [trimEnd, ← List.reverse_append, List.takeWhile_append_dropWhile, List.reverse_reverse]
  cases htrim : trimEnd (c :: cs) with
  | nil => exact absurd htrim (trimEnd_ne_nil hc cs)
  | cons d rest =>
    rw [htrim] at hsplit
    cases (List.cons.inj hsplit).1
    exact ⟨rest, rfl⟩

/-- A text that is just one statement. -/
theorem parse_single {cs : List Char} {c : Char} {u : Token} {us : List Token} {header : Header} {body : Body}
    (hc : isBlank c = false) (htokens : (tokenize (c :: cs)).1 = u :: us)
    (hread : readStatement (u :: us) = (header, body, [])) :
    parse (c :: cs) = [⟨0, .start, header, body, String.ofList (trim (c :: cs))⟩] := by
  have hreads : Reads .start (c :: cs) (u :: us) := by
    refine ⟨htokens, fun d hd ↦ ?_⟩
    cases hd
    exact hc
  have hposition : u.position = .start := by
    rcases hreads.nil_or_cons with ⟨hnil, -⟩ | ⟨_, _, t, ts, -, -, heq, hposition⟩
    · cases hnil
    · cases heq
      exact hposition
  have hnone : Reads (Position.start.after ([] ++ c :: cs)) [] [] := ⟨rfl, fun d hd ↦ nomatch hd⟩
  have hparse : parse (c :: cs) = readAll (Position.start.after (c :: cs)).offset 0 0 (c :: cs) (u :: us) := by
    have hall : parse (c :: cs) =
        readAll (scan 0 .start (c :: cs)).2.offset 0 0 (trimStart (c :: cs)) (tokenize (c :: cs)).1 := rfl
    rw [hall, htokens, scan_snd, trimStart_cons_of_not_blank hc]
  rw [← List.append_nil us] at hread
  have hall := readAll_slice hposition hread hnone 0
  rw [List.append_nil, List.append_nil, List.append_nil, hposition] at hall
  rw [hparse]
  exact hall

theorem parse_tiles (source : List Char) :
    ∃ tiles : List Tile, Tiled 0 (source.takeWhile isBlank) tiles (parse source) ∧ ∀ tile ∈ tiles, tile.Whole := by
  have hsource : source.takeWhile isBlank ++ trimStart source = source := List.takeWhile_append_dropWhile
  obtain ⟨tiles, -, -, htiled, hwhole⟩ :=
    exists_whole_tiles (reads_scan .start source) 0 fun h ↦ absurd h (Nat.lt_irrefl 0)
  rw [hsource, ← scan_snd 0] at htiled
  exact ⟨tiles, htiled, hwhole⟩

/-- A statement that is read from its own text is the same statement, whatever stood around it: only its number and its
place are those of a first statement. -/
theorem parse_own_text {source : List Char} {st : Statement} (hst : st ∈ parse source) :
    parse st.text.toList = [{ st with index := 0, position := .start }] := by
  obtain ⟨tiles, htiled, hwhole⟩ := parse_tiles source
  obtain ⟨k, hk⟩ := List.mem_iff_getElem?.mp hst
  obtain ⟨⟨tokens, slice⟩, htile, hfits⟩ := htiled.fits hk
  obtain ⟨hflush, hkinds⟩ := hwhole _ (List.mem_of_getElem? htile)
  dsimp only at hflush hkinds
  have htext := hfits.text
  have hread := hfits.read
  cases tokens with
  | nil => exact absurd rfl hfits.tokens
  | cons t used =>
    cases slice with
    | nil => cases hkinds
    | cons c slice =>
      have hc := hflush c rfl
      obtain ⟨cs, hcs⟩ := trimEnd_cons hc slice
      have htrim : trim (c :: cs) = c :: cs := by
        rw [trim_of_not_blank hc, ← hcs, trimEnd_trimEnd]
      have hscan : (tokenize (c :: cs)).1 = (tokenize (c :: slice)).1 := by
        rw [← hcs]
        exact scan_trimEnd _ _
      dsimp only at htext
      rw [htext, hcs, String.toList_ofList]
      cases htokens : (tokenize (c :: cs)).1 with
      | nil =>
        rw [← hscan, htokens] at hkinds
        cases hkinds
      | cons u us =>
        rw [← hscan, htokens] at hkinds
        obtain ⟨hkind, hkinds⟩ := List.cons.inj hkinds
        rw [parse_single hc htokens (readStatement_cut hkind (cut_append hkinds) hread), htrim]

def stumble : List Char := "DO RESUME DO (10)\n PLEASE DON'T %50 GIVE UP ".toList

theorem parse_own_text_stumble :
    (∃ st, (parse stumble)[0]? = some st ∧ st.body.isMalformed = true ∧
      parse "DO RESUME DO".toList = [{ st with index := 0, position := .start }]) ∧
    ∃ st, (parse stumble)[1]? = some st ∧ st.position = ⟨1, 14, 13⟩ ∧ st.header = ⟨some 10, false, true, 50⟩ ∧
      parse "(10)\n PLEASE DON'T %50 GIVE UP".toList = [{ st with index := 0, position := .start }] := by
  have hfirst : (parse stumble)[0]?.map (fun st ↦ (st.body.isMalformed, st.text)) = some (true, "DO RESUME DO") := by
    decide +kernel
  have hsecond : (parse stumble)[1]?.map (fun st ↦ (st.position, st.header, st.text)) =
      some (⟨1, 14, 13⟩, ⟨some 10, false, true, 50⟩, "(10)\n PLEASE DON'T %50 GIVE UP") := by
    decide +kernel
  constructor
  · obtain ⟨st, hst, hread⟩ := Option.map_eq_some_iff.mp hfirst
    obtain ⟨hbody, htext⟩ := Prod.mk.inj hread
    exact ⟨st, hst, hbody, htext ▸ parse_own_text (List.mem_of_getElem? hst)⟩
  · obtain ⟨st, hst, hread⟩ := Option.map_eq_some_iff.mp hsecond
    obtain ⟨hposition, hread⟩ := Prod.mk.inj hread
    obtain ⟨hheader, htext⟩ := Prod.mk.inj hread
    exact ⟨st, hst, hposition, hheader, htext ▸ parse_own_text (List.mem_of_getElem? hst)⟩

end Statement

end Intercal
