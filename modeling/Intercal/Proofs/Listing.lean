import Intercal.Proofs.Phrases

namespace Intercal

open Token Reader Text

def octets : List Char → Nat
  | [] => 0
  | c :: cs => c.utf8Size + octets cs

theorem Position.offset_advance (p : Position) (c : Char) : (p.advance c).offset = p.offset + c.utf8Size := by
  unfold advance
  split <;> rfl

theorem Position.offset_after (p : Position) (cs : List Char) : (p.after cs).offset = p.offset + octets cs := by
  induction cs generalizing p with
  | nil => rfl
  | cons c cs ih =>
    rw [after, List.foldl_cons, ← after, ih, offset_advance, Nat.add_assoc]
    rfl

theorem Position.after_inline {cs : List Char} (h : '\n' ∉ cs) (p : Position) :
    p.after cs = ⟨p.line, p.column + cs.length, p.offset + octets cs⟩ := by
  induction cs generalizing p with
  | nil => rfl
  | cons c cs ih =>
    have hc : c ≠ '\n' := fun hc ↦ h (hc ▸ List.mem_cons_self)
    have hcs : '\n' ∉ cs := fun hcs ↦ h (List.mem_cons_of_mem c hcs)
    rw [after, List.foldl_cons, ← after, ih hcs, advance, if_neg hc, Nat.add_assoc, Nat.add_assoc, Nat.add_comm 1]
    rfl

theorem Position.after_newline {cs : List Char} (h : '\n' ∉ cs) (p : Position) :
    p.after (cs ++ ['\n']) = ⟨p.line + 1, 1, p.offset + octets cs + 1⟩ := by
  rw [after_append, after_inline h]
  rfl

theorem Text.trim_append {c d : Char} {cs front back gaps : List Char} (hfirst : cs = c :: back)
    (hc : isBlank c = false) (hlast : cs = front ++ [d]) (hd : isBlank d = false)
    (hgaps : ∀ g ∈ gaps, isBlank g = true) : trim (cs ++ gaps) = cs := by
  have hstart : trimStart (cs ++ gaps) = cs ++ gaps := by
    rw [hfirst, List.cons_append, trimStart_cons_of_not_blank hc]
  have hreverse : ∀ g ∈ gaps.reverse, isBlank g = true := fun g hg ↦ hgaps g (List.mem_reverse.mp hg)
  rw [trim, hstart, trimEnd, List.reverse_append, List.dropWhile_append_of_pos hreverse, hlast, List.reverse_concat,
    List.dropWhile_cons_of_neg (by rw [hd]; exact Bool.false_ne_true), List.reverse_cons, List.reverse_reverse]

namespace Phrase

variable {xs : List Piece}

theorem spell_token (h : Phrase xs) {k : Kind} (hk : .token k ∈ xs) :
    (Piece.token k).spell ≠ [] ∧ ∀ c ∈ (Piece.token k).spell, isBlank c = false := by
  have hxs : Legible (xs ++ []) := h.legible .nil nofun
  rw [List.append_nil] at hxs
  exact hxs.spell_token hk

theorem newline_notMem (h : Phrase xs) : '\n' ∉ spellAll xs := by
  intro hmem
  obtain ⟨x, hx, hspell⟩ := List.mem_flatMap.mp hmem
  cases x with
  | gap c =>
    cases h.inline hx
    simp [Piece.spell] at hspell
  | token k => cases (h.spell_token hx).2 _ hspell

theorem spell_first {k : Kind} (h : Phrase (.token k :: xs)) :
    ∃ c cs, spellAll (.token k :: xs) = c :: cs ∧ isBlank c = false := by
  obtain ⟨hne, hblank⟩ := h.spell_token List.mem_cons_self
  obtain ⟨c, cs, hspell⟩ := List.exists_cons_of_ne_nil hne
  refine ⟨c, cs ++ spellAll xs, by rw [spellAll_cons, hspell]; rfl, hblank c ?_⟩
  rw [hspell]
  exact List.mem_cons_self

theorem spell_last (h : Phrase xs) : ∃ cs d, spellAll xs = cs ++ [d] ∧ isBlank d = false := by
  obtain ⟨k, hk⟩ := h.last
  obtain ⟨ys, rfl⟩ := List.getLast?_eq_some_iff.mp hk
  obtain ⟨hne, hblank⟩ := h.spell_token (List.mem_append_right ys List.mem_cons_self)
  refine ⟨spellAll ys ++ (Piece.token k).spell.dropLast, (Piece.token k).spell.getLast hne, ?_,
    hblank _ (List.getLast_mem hne)⟩
  rw [List.append_assoc, List.dropLast_concat_getLast, spellAll_append, spellAll_cons]
  exact congrArg _ (List.append_nil _)

end Phrase

def Header.write (h : Header) : String :=
  (h.label.elim "" fun n ↦ Label.writeRaw n ++ " ") ++ (if h.please then "PLEASE" else "DO") ++
    (if h.enabled then "" else " NOT") ++ if h.percent = 100 then "" else " %" ++ toString h.percent

def Header.pieces (h : Header) : List Piece :=
  (h.label.elim [] fun n ↦ [.token (.label n), .gap ' ']) ++ .token (.word (if h.please then "PLEASE" else "DO")) ::
    ((if h.enabled then [] else [.gap ' ', .token (.word "NOT")]) ++
      if h.percent = 100 then [] else [.gap ' ', .token (.punctuation '%'), .token (.number h.percent)])

def Header.Canonical (h : Header) : Prop := (∀ n ∈ h.label, n ≤ maxWord) ∧ h.percent ≤ 100

structure Line where
  header : Header
  body : Body

namespace Line

def write (l : Line) : String := l.header.write ++ " " ++ l.body.write

def Canonical (l : Line) : Prop := l.header.Canonical ∧ l.body.Canonical

def pieces (l : Line) : List Piece := l.header.pieces ++ .gap ' ' :: l.body.pieces

def statements (index offset : Nat) : List Line → List Statement
  | [] => []
  | l :: ls =>
    { index, position := ⟨index + 1, 1, offset⟩, header := l.header, body := l.body, text := l.write } ::
      statements (index + 1) (offset + octets l.write.toList + 1) ls

end Line

theorem spell_header (h : Header) : spellAll h.pieces = h.write.toList := by
  obtain ⟨label, enabled, please, percent⟩ := h
  cases label <;> cases enabled <;> cases please <;> by_cases hp : percent = 100 <;>
    simp [Header.pieces, Header.write, spellAll, Piece.spell, hp]

theorem spell_line (l : Line) : spellAll l.pieces = l.write.toList := by
  simp [Line.pieces, Line.write, spellAll_append, spellAll_cons, spell_header, spell_body, Piece.spell]

theorem Header.Canonical.phrase {h : Header} (hh : h.Canonical) : Phrase h.pieces := by
  obtain ⟨label, enabled, please, percent⟩ := h
  obtain ⟨hlabel, hpercent⟩ := hh
  have hword : Phrase [.token (.word (if please then "PLEASE" else "DO"))] := by
    cases please <;> exact .word (by decide)
  have hnot : Phrase (.token (.word (if please then "PLEASE" else "DO")) ::
      if enabled then [] else [.gap ' ', .token (.word "NOT")]) := by
    cases enabled with
    | true => exact hword
    | false => exact hword.gap (.word (by decide))
  have hchance : Phrase (.token (.word (if please then "PLEASE" else "DO")) ::
      ((if enabled then [] else [.gap ' ', .token (.word "NOT")]) ++
        if percent = 100 then [] else [.gap ' ', .token (.punctuation '%'), .token (.number percent)])) := by
    by_cases hp : percent = 100
    · rw [if_pos hp, List.append_nil]
      exact hnot
    · rw [if_neg hp, ← List.cons_append]
      exact hnot.gap (.marked (by decide) (Nat.le_trans hpercent (by decide)))
  cases label with
  | none => exact hchance
  | some n => exact (Phrase.label (hlabel n rfl)).gap hchance

theorem Line.Canonical.phrase {l : Line} (hl : l.Canonical) : Phrase l.pieces := hl.1.phrase.gap hl.2.phrase

namespace Statement

def leads : Kind → Bool
  | .word w => w != "DO" && w != "PLEASE" && !"NOT".toList.isPrefixOf w.toList
  | .punctuation c => c != '%'
  | _ => true

theorem body_leads {b : Body} (hb : b.Canonical) : ∃ k xs, b.pieces = .token k :: xs ∧ leads k = true := by
  cases b with
  | effect e =>
    cases e with
    | assign target e =>
      cases target with
      | scalar v => exact ⟨.punctuation v.kind.sigil, _, rfl, by cases v.kind <;> decide⟩
      | element a subs => exact ⟨.punctuation a.kind.sigil, _, rfl, by cases a.kind <;> decide⟩
    | redimension a dims => exact ⟨.punctuation a.kind.sigil, _, rfl, by cases a.kind <;> decide⟩
    | _ => exact ⟨_, _, rfl, by decide⟩
  | malformed => exact hb.elim
  | next n => exact ⟨_, _, rfl, rfl⟩
  | _ => exact ⟨_, _, rfl, by decide⟩

theorem readQualifiers_leads {k : Kind} (hk : leads k = true) (h : Header) (p : Position) (ts : List Token) :
    readQualifiers true h (⟨k, p⟩ :: ts) = (h, true, ⟨k, p⟩ :: ts) := by
  cases k with
  | word w =>
    simp only [leads, Bool.and_eq_true, bne_iff_ne, ne_eq, Bool.not_eq_true'] at hk
    obtain ⟨⟨hdo, hplease⟩, hnot⟩ := hk
    have hne : w ≠ "NOT" := by
      rintro rfl
      cases hnot
    simp only [readQualifiers, if_neg hdo, if_neg hplease, Bool.true_and, decide_eq_true_eq, if_neg hne, hnot]
    rfl
  | punctuation c =>
    have hc : c ≠ '%' := bne_iff_ne.mp hk
    unfold readQualifiers
    split
    · next heq => cases heq
    · next heq => exact absurd (Kind.punctuation.inj heq) hc
    · rfl
  | _ => rfl

theorem readHeader_place {h : Header} (hh : h.Canonical) {k : Kind} (hk : leads k = true) (p q : Position)
    (ts : List Token) : readHeader (place p h.pieces ++ ⟨k, q⟩ :: ts) = (h, true, ⟨k, q⟩ :: ts) := by
  obtain ⟨label, enabled, please, percent⟩ := h
  have hpercent : percent ≤ 100 := hh.2
  have hstop (h : Header) := readQualifiers_leads hk h q ts
  cases label <;> cases enabled <;> cases please <;> by_cases hp : percent = 100 <;>
    simp [Header.pieces, place, readHeader, readQualifiers, hp, hpercent, hstop]

theorem boundary_of_starts {ts : List Token} (h : (ts.isEmpty || starts ts) = true) :
    Boundary (ts.head?.map (·.kind)) := by
  cases ts with
  | nil => exact .inl rfl
  | cons t ts =>
    rw [List.isEmpty_cons, Bool.false_or, starts] at h
    split at h
    · next n hkind => exact .inr (.inr (.inr ⟨n, congrArg some hkind⟩))
    · simp only [opens, isWord, Bool.or_eq_true, beq_iff_eq] at h
      exact .inr (h.imp (congrArg some) fun h ↦ .inl (congrArg some h))

theorem starts_line (l : Line) (p : Position) (xs : List Piece) : starts (place p (l.pieces ++ xs)) = true := by
  obtain ⟨⟨label, enabled, please, percent⟩, body⟩ := l
  cases label <;> cases please <;> rfl

theorem readStatement_line {l : Line} (hl : l.Canonical) (p : Position) {rest : List Token}
    (hrest : (rest.isEmpty || starts rest) = true) :
    readStatement (place p l.pieces ++ rest) = (l.header, l.body, rest) := by
  obtain ⟨k, xs, hbody, hk⟩ := body_leads hl.2
  obtain ⟨q, hq⟩ : ∃ q, place p l.pieces = place p l.header.pieces ++ place q l.body.pieces :=
    ⟨_, place_append p l.header.pieces _⟩
  have hheader : readHeader (place p l.pieces ++ rest) = (l.header, true, place q l.body.pieces ++ rest) := by
    rw [hq, List.append_assoc, hbody]
    exact readHeader_place hl.1 hk p q _
  have hread := readBody_reads hl.2 (place q l.body.pieces) rest (kinds_place _ _) (boundary_of_starts hrest)
  unfold readStatement
  rw [hheader]
  dsimp only
  rw [if_pos rfl, hread]
  dsimp only
  rw [if_pos hrest]

theorem splitOctets_append (front back : List Char) : splitOctets (octets front) (front ++ back) = (front, back) := by
  induction front with
  | nil =>
    cases back with
    | nil => rfl
    | cons c back => exact if_neg (Nat.not_le_of_gt c.utf8Size_pos)
  | cons c front ih =>
    have hoctets : octets (c :: front) = c.utf8Size + octets front := rfl
    rw [hoctets, List.cons_append, splitOctets, if_pos (Nat.le_add_right _ _), Nat.add_sub_cancel_left, ih]

theorem readAll_covered (stop index : Nat) (source : List Char) (front rest : List Token) :
    readAll stop front.length index source (front ++ rest) = readAll stop 0 index source rest := by
  induction front with
  | nil => rfl
  | cons t front ih => exact ih

theorem readAll_cons {stop index finish : Nat} {t : Token} {ts rest : List Token} {header : Header} {body : Body}
    {source : List Char} (hread : readStatement (t :: ts) = (header, body, rest))
    (hfinish : rest.head?.elim stop (·.position.offset) = finish) :
    readAll stop 0 index source (t :: ts) =
      { index, position := t.position, header, body
        text := String.ofList (trim (splitOctets (finish - t.position.offset) source).1) } ::
        readAll stop (ts.length - rest.length) (index + 1) (splitOctets (finish - t.position.offset) source).2 ts := by
  rw [readAll, hread]
  cases hfinish
  cases rest <;> rfl

end Statement

namespace Line

theorem pieces_cons (l : Line) : ∃ k xs, l.pieces = .token k :: xs := by
  obtain ⟨⟨label, enabled, please, percent⟩, body⟩ := l
  cases label <;> exact ⟨_, _, rfl⟩

theorem Canonical.trim_append {l : Line} (hl : l.Canonical) {gaps : List Char} (hgaps : ∀ c ∈ gaps, isBlank c = true) :
    trim (spellAll l.pieces ++ gaps) = spellAll l.pieces := by
  have hphrase := hl.phrase
  obtain ⟨front, d, hlast, hd⟩ := hphrase.spell_last
  obtain ⟨k, xs, hpieces⟩ := l.pieces_cons
  rw [hpieces] at hphrase hlast ⊢
  obtain ⟨c, back, hfirst, hc⟩ := hphrase.spell_first
  exact Text.trim_append hfirst hc hlast hd hgaps

def below (tail : List Char) : List Line → List Piece
  | [] => tail.map .gap
  | l :: ls => .gap '\n' :: (l.pieces ++ below tail ls)

theorem spell_gaps (gaps : List Char) : spellAll (gaps.map .gap) = gaps := by
  rw [spellAll, List.flatMap_map]
  exact List.flatMap_singleton' gaps

theorem place_gaps (p : Position) (gaps : List Char) : place p (gaps.map .gap) = [] := by
  induction gaps generalizing p with
  | nil => rfl
  | cons c gaps ih => exact ih _

theorem spell_below (tail : List Char) (l : Line) (ls : List Line) :
    spellAll (l.pieces ++ below tail ls) = ("\n".intercalate ((l :: ls).map write)).toList ++ tail := by
  induction ls generalizing l with
  | nil =>
    rw [below, spellAll_append, spell_line, spell_gaps]
    simp
  | cons m ls ih =>
    have hnewline : spellAll (l.pieces ++ below tail (m :: ls)) =
        spellAll l.pieces ++ '\n' :: spellAll (m.pieces ++ below tail ls) := spellAll_append _ _
    rw [hnewline, ih, spell_line]
    simp [String.toList_intercalate]

theorem legible_below {tail : List Char} (htail : ∀ c ∈ tail, isBlank c = true) {ls : List Line}
    (hls : ∀ l ∈ ls, l.Canonical) : Legible (below tail ls) ∧ ∀ y ∈ (below tail ls).head?, y.isGap := by
  induction ls with
  | nil =>
    refine ⟨?_, ?_⟩
    · induction tail with
      | nil => exact .nil
      | cons c tail ih =>
        exact .gap (htail c List.mem_cons_self) (ih fun d hd ↦ htail d (List.mem_cons_of_mem c hd))
    · cases tail with
      | nil => exact nofun
      | cons c tail => exact Expr.apart_cons rfl
  | cons l ls ih =>
    obtain ⟨hrest, hgap⟩ := ih fun m hm ↦ hls m (List.mem_cons_of_mem l hm)
    have hl := (hls l List.mem_cons_self).phrase.legible hrest hgap
    exact ⟨.gap (by decide) hl, Expr.apart_cons rfl⟩

/-- A line and the blanks behind it, up to the next line or the end of the text. -/
theorem readAll_line {l : Line} (hl : l.Canonical) {gaps : List Char} (hgaps : ∀ c ∈ gaps, isBlank c = true)
    {p q : Position} (hq : p.after (spellAll l.pieces ++ gaps) = q) {stop index : Nat} {source later : List Char}
    (hsource : source = spellAll l.pieces ++ gaps ++ later) {ts rest : List Token}
    (hts : ts = place p l.pieces ++ rest) (hrest : (rest.isEmpty || Statement.starts rest) = true)
    (hfinish : rest.head?.elim stop (·.position.offset) = q.offset) :
    Statement.readAll stop 0 index source ts =
      { index, position := p, header := l.header, body := l.body, text := l.write } ::
        Statement.readAll stop 0 (index + 1) later rest := by
  have hread := Statement.readStatement_line hl p hrest
  obtain ⟨k, xs, hpieces⟩ := l.pieces_cons
  have hplace : place p l.pieces = ⟨k, p⟩ :: place (p.after (Piece.token k).spell) xs := by
    rw [hpieces]
    rfl
  have hslice : q.offset - p.offset = octets (spellAll l.pieces ++ gaps) := by
    rw [← hq, Position.offset_after, Nat.add_sub_cancel_left]
  have htext : trim (spellAll l.pieces ++ gaps) = l.write.toList := by
    rw [hl.trim_append hgaps, spell_line]
  rw [hplace, List.cons_append] at hread hts
  rw [hts, Statement.readAll_cons hread hfinish, hslice, hsource, Statement.splitOctets_append, htext,
    String.ofList_toList, List.length_append, Nat.add_sub_cancel, Statement.readAll_covered]

theorem readAll_lines {tail : List Char} (htail : ∀ c ∈ tail, isBlank c = true) {l : Line} {ls : List Line}
    (hls : ∀ m ∈ l :: ls, m.Canonical) {index offset : Nat} {p : Position} (hp : p = ⟨index + 1, 1, offset⟩) :
    Statement.readAll (p.after (spellAll (l.pieces ++ below tail ls))).offset 0 index
      (spellAll (l.pieces ++ below tail ls)) (place p (l.pieces ++ below tail ls)) =
        statements index offset (l :: ls) := by
  have hl := hls l List.mem_cons_self
  induction ls generalizing l index offset p with
  | nil =>
    have hspell : spellAll (l.pieces ++ below tail []) = spellAll l.pieces ++ tail ++ [] := by
      rw [below, spellAll_append, spell_gaps, List.append_nil]
    have hplace : place p (l.pieces ++ below tail []) = place p l.pieces ++ [] := by
      rw [below, place_append, place_gaps]
    rw [readAll_line hl htail rfl hspell hplace rfl (by rw [hspell, List.append_nil]; rfl), hp]
    rfl
  | cons m ls ih =>
    have hnewline : ∀ c ∈ ['\n'], isBlank c = true := List.forall_mem_singleton.mpr rfl
    have hq : p.after (spellAll l.pieces ++ ['\n']) = ⟨index + 1 + 1, 1, offset + octets l.write.toList + 1⟩ := by
      rw [Position.after_newline hl.phrase.newline_notMem, hp, spell_line]
    have hspell : spellAll (l.pieces ++ below tail (m :: ls)) =
        spellAll l.pieces ++ ['\n'] ++ spellAll (m.pieces ++ below tail ls) := by
      rw [spellAll_append, List.append_assoc]
      rfl
    have hplace : place p (l.pieces ++ below tail (m :: ls)) =
        place p l.pieces ++ place (p.after (spellAll l.pieces ++ ['\n'])) (m.pieces ++ below tail ls) := by
      rw [place_append, after_append]
      rfl
    have hrest := ih (fun m' hm' ↦ hls m' (List.mem_cons_of_mem l hm')) hq (hls m (by simp))
    rw [hspell, after_append]
    rw [readAll_line hl hnewline rfl rfl hplace]
    · rw [hrest, hp]
      rfl
    · rw [Statement.starts_line, Bool.or_true]
    · obtain ⟨k, xs, hpieces⟩ := m.pieces_cons
      rw [hpieces]
      rfl

end Line

/-- A listing of statements that can be written is read as just these statements, in their order, each at the beginning
of its line. -/
theorem Statement.parse_listing (ls : List Line) (hls : ∀ l ∈ ls, l.Canonical) {tail : List Char}
    (htail : ∀ c ∈ tail, isBlank c = true) :
    parse (("\n".intercalate (ls.map Line.write)).toList ++ tail) = Line.statements 0 0 ls := by
  cases ls with
  | nil =>
    have hscan := scan_spellAll (Line.legible_below htail hls).1 .start
    rw [Line.below, Line.spell_gaps, Line.place_gaps] at hscan
    change parse tail = []
    rw [parse, tokenize, hscan]
    rfl
  | cons l ls =>
    obtain ⟨hbelow, hgap⟩ := Line.legible_below htail fun m hm ↦ hls m (List.mem_cons_of_mem l hm)
    have hphrase := (hls l List.mem_cons_self).phrase
    have hscan := scan_spellAll (hphrase.legible hbelow hgap) .start
    have hread := Line.readAll_lines htail hls (p := .start) rfl
    have htrim : trimStart (spellAll (l.pieces ++ Line.below tail ls)) = spellAll (l.pieces ++ Line.below tail ls) := by
      obtain ⟨k, xs, hpieces⟩ := l.pieces_cons
      rw [hpieces] at hphrase
      obtain ⟨c, cs, hfirst, hc⟩ := hphrase.spell_first
      rw [spellAll_append, hpieces, hfirst, List.cons_append, trimStart_cons_of_not_blank hc]
    rw [← Line.spell_below, parse, tokenize, hscan]
    dsimp only
    rw [htrim, hread]

def Line.sample : List Line :=
  [{ header := { label := some 10, enabled := false, please := true, percent := 25 }
     body := .effect (.assign (.element ⟨.hybrid, 1⟩ [.constant 2 false, .element ⟨.tail, 3⟩ [.var ⟨.spot, 4⟩]])
       (.unary .or (.mingle (.var ⟨.twoSpot, 5⟩) (.constant 65535 false)))) },
   { header := {}, body := .abstain (.gerunds [.readingOut, .nexting]) },
   { header := { label := some 4294967295 }, body := .comeFrom 10 }]

theorem Statement.parse_listing_sample :
    (∀ l ∈ Line.sample, l.Canonical) ∧
      parse ("(10) PLEASE NOT %25 ;1 SUB #2 ,3 SUB .4 <- 'V':5$#65535''\n" ++
        "DO ABSTAIN FROM READING OUT + NEXTING\n(4294967295) DO COME FROM (10)\n").toList =
          Line.statements 0 0 Line.sample := by
  have hcanonical : ∀ l ∈ Line.sample, l.Canonical := by
    have hsubscript : Expr.Canonical (.element ⟨.tail, 3⟩ [.var ⟨.spot, 4⟩]) :=
      .element rfl ⟨by decide, by decide⟩ (.var rfl ⟨by decide, by decide⟩)
    have hvalue : Expr.Canonical (.unary .or (.mingle (.var ⟨.twoSpot, 5⟩) (.constant 65535 false))) :=
      .unary (.mingle (.var rfl ⟨by decide, by decide⟩) (.constant (by decide)) rfl)
    have hsubscripts : Expr.Subscripts [.constant 2 false, .element ⟨.tail, 3⟩ [.var ⟨.spot, 4⟩]] :=
      .cons (.constant (by decide)) rfl (.last hsubscript)
    simp only [Line.sample, List.forall_mem_cons, Line.Canonical, Header.Canonical]
    have htarget : 10 ≤ maxWord := by decide
    refine ⟨⟨by decide, ?_⟩, ⟨by decide, nofun⟩, ⟨by decide, htarget⟩, nofun⟩
    exact ⟨rfl, ⟨by decide, by decide⟩, hsubscripts, hvalue⟩
  have htext : ("(10) PLEASE NOT %25 ;1 SUB #2 ,3 SUB .4 <- 'V':5$#65535''\n" ++
      "DO ABSTAIN FROM READING OUT + NEXTING\n(4294967295) DO COME FROM (10)\n").toList =
        ("\n".intercalate (Line.sample.map Line.write)).toList ++ ['\n'] := by decide +kernel
  rw [htext]
  exact ⟨hcanonical, parse_listing Line.sample hcanonical (List.forall_mem_singleton.mpr rfl)⟩

end Intercal
