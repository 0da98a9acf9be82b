import Intercal.Proofs.Lexemes
import Intercal.Proofs.Recovery
import Mathlib.Data.List.Induction
import Mathlib.Data.List.TakeWhile

namespace Intercal

open Text Token

theorem octets_append (front back : List Char) : octets (front ++ back) = octets front + octets back := by
  induction front with
  | nil => exact (Nat.zero_add _).symm
  | cons c front ih => rw [List.cons_append, octets, octets, ih, Nat.add_assoc]

/-- The line is counted by newlines, and the column by the characters behind the last of them. -/
theorem Position.start_after (cs : List Char) :
    start.after cs = ⟨cs.count '\n' + 1, (cs.reverse.takeWhile (· != '\n')).length + 1, octets cs⟩ := by
  induction cs using List.reverseRecOn with
  | nil => rfl
  | append_singleton cs c ih =>
    rw [after_append, ih, List.count_append, List.reverse_concat, octets_append]
    by_cases hc : c = '\n'
    · subst hc
      rfl
    · have hcount : [c].count '\n' = 0 := List.count_eq_zero.mpr (by simpa using Ne.symm hc)
      have hcolumn : (c :: cs.reverse).takeWhile (· != '\n') = c :: cs.reverse.takeWhile (· != '\n') :=
        List.takeWhile_cons_of_pos (bne_iff_ne.mpr hc)
      rw [hcount, hcolumn]
      exact if_neg hc

namespace Token

theorem scan_snd (covered : Nat) (p : Position) (cs : List Char) : (scan covered p cs).2 = p.after cs := by
  fun_induction scan covered p cs with
  | case1 => rfl
  | case2 _ _ _ _ ih => exact ih
  | case3 _ _ _ _ ih => exact ih
  | case4 _ _ _ _ _ _ ih => exact ih

/-- With a token that is not the first of its lexeme no statement starts. -/
theorem lexeme_kinds (c : Char) (cs : List Char) :
    ∃ k ks, (lexeme c cs).1 = k :: ks ∧ ∀ j ∈ ks, Statement.plain j = true := by
  have hsingle (k : Kind) (n : Nat) : ∃ k' ks, (([k], n) : List Kind × Nat).1 = k' :: ks ∧
      ∀ j ∈ ks, Statement.plain j = true := ⟨k, [], rfl, by simp⟩
  unfold lexeme
  split
  · exact hsingle _ _
  split
  · unfold wordLexeme
    dsimp only
    split
    · split
      · exact hsingle _ _
      · exact ⟨_, [.word "NOT"], rfl, by decide⟩
    · exact hsingle _ _
  split
  · unfold labelLexeme
    dsimp only
    split <;> exact hsingle _ _
  · split <;> exact hsingle _ _
  · exact ⟨_, [.punctuation '.'], rfl, by decide⟩
  all_goals exact hsingle _ _

/-- Where a statement starts among the tokens, there is a place in the text from which just these tokens are read. The
others are the tokens of the text before that place. -/
theorem scan_cut {covered : Nat} {p : Position} {cs : List Char} {rest : List Token}
    (hrest : rest <:+ (scan covered p cs).1) (hstarts : Statement.starts rest = true) :
    ∃ front c back, cs = front ++ c :: back ∧ isBlank c = false ∧ (scan 0 (p.after front) (c :: back)).1 = rest ∧
      covered ≤ front.length ∧ (scan covered p cs).1 = (scan covered p front).1 ++ rest := by
  fun_induction scan covered p cs with
  | case1 =>
    rw [List.suffix_nil.mp hrest] at hstarts
    cases hstarts
  | case2 p c cs k ih =>
    obtain ⟨front, d, back, rfl, hd, hscan, hcovered, hfront⟩ := ih hrest
    exact ⟨c :: front, d, back, rfl, hd, hscan, Nat.succ_le_succ hcovered, hfront⟩
  | case3 p c cs hblank ih =>
    obtain ⟨front, d, back, rfl, hd, hscan, -, hfront⟩ := ih hrest
    refine ⟨c :: front, d, back, rfl, hd, hscan, Nat.zero_le _, ?_⟩
    rw [scan_of_blank hblank, hfront]
  | case4 p c cs hblank l behind ih =>
    have hc := Bool.eq_false_iff.mpr hblank
    have hlater : rest <:+ behind.1 → ∃ front d back, c :: cs = front ++ d :: back ∧ isBlank d = false ∧
        (scan 0 (p.after front) (d :: back)).1 = rest ∧ 0 ≤ front.length ∧
        l.1.map (⟨·, p⟩) ++ behind.1 = (scan 0 p front).1 ++ rest := by
      intro hbehind
      obtain ⟨front, d, back, rfl, hd, hscan, hcovered, hfront⟩ := ih hbehind
      refine ⟨c :: front, d, back, rfl, hd, hscan, Nat.zero_le _, ?_⟩
      have hlexeme : l = lexeme c front := lexeme_append (Nat.sub_le_iff_le_add.mp hcovered)
      rw [scan_of_not_blank hc, List.append_assoc, ← hlexeme, ← hfront]
    obtain ⟨gone, hgone⟩ := hrest
    rcases List.append_eq_append_iff.mp hgone with ⟨left, hleft, rfl⟩ | ⟨more, -, hmore⟩
    · cases gone with
      | nil =>
        rw [List.nil_append] at hleft
        have hall : (scan 0 p (c :: cs)).1 = left ++ behind.1 := by
          rw [← hleft]
          exact scan_of_not_blank hc cs
        exact ⟨[], c, cs, rfl, hc, hall, Nat.zero_le _, by rw [hleft]; rfl⟩
      | cons first gone =>
        cases left with
        | nil => exact hlater List.suffix_rfl
        | cons t left =>
          -- The cut would go through the lexeme, but no statement starts there.
          obtain ⟨k, ks, hkinds, hplain⟩ := lexeme_kinds c cs
          rw [hkinds, List.map_cons, List.cons_append] at hleft
          have ht : t ∈ ks.map (⟨·, p⟩) := by
            rw [(List.cons.inj hleft).2]
            exact List.mem_append_right _ List.mem_cons_self
          obtain ⟨j, hj, rfl⟩ := List.mem_map.mp ht
          rw [List.cons_append, Statement.starts_of_plain (hplain j hj)] at hstarts
          cases hstarts
    · exact hlater ⟨more, hmore.symm⟩

end Token

namespace Statement

theorem readStatement_boundary (ts : List Token) :
    (readStatement ts).2.2 = [] ∨ starts (readStatement ts).2.2 = true := by
  unfold readStatement
  dsimp only
  generalize (if (readHeader ts).2.1 = true then readBody (readHeader ts).2.2 else (none, (readHeader ts).2.2)) = r
  split
  · split
    · next hboundary =>
      rw [Bool.or_eq_true] at hboundary
      exact hboundary.imp_left List.isEmpty_iff.mp
    · exact (skipToStart_firstStart _).boundary
  · exact (skipToStart_firstStart _).boundary

structure Reads (p : Position) (cs : List Char) (tokens : List Token) : Prop where
  scan : (scan 0 p cs).1 = tokens
  flush : ∀ c ∈ cs.head?, isBlank c = false

namespace Reads

variable {p : Position} {cs : List Char} {t : Token} {tokens ts rest : List Token}

theorem nil_or_cons (h : Reads p cs tokens) :
    cs = [] ∧ tokens = [] ∨ ∃ c back t ts, cs = c :: back ∧ isBlank c = false ∧ tokens = t :: ts ∧ t.position = p := by
  obtain ⟨rfl, hflush⟩ := h
  cases cs with
  | nil => exact .inl ⟨rfl, rfl⟩
  | cons c back =>
    have hc := hflush c rfl
    obtain ⟨k, ks, hkinds, -⟩ := lexeme_kinds c back
    have hscan := scan_of_not_blank (p := p) hc back
    rw [hkinds, List.map_cons, List.cons_append] at hscan
    exact .inr ⟨c, back, _, _, rfl, hc, hscan, rfl⟩

/-- Where the next statement starts, or the text ends. -/
theorem finish {before : List Char} (h : Reads (Position.start.after before) cs tokens) :
    tokens.head?.elim (Position.start.after (before ++ cs)).offset (·.position.offset) = octets before := by
  rcases h.nil_or_cons with ⟨rfl, rfl⟩ | ⟨c, back, t, ts, rfl, hc, rfl, hposition⟩
  · rw [List.append_nil, Position.start_after]
    rfl
  · rw [List.head?_cons, Option.elim_some, hposition, Position.start_after]

/-- A part of the text belongs to the first statement, and the rest of the tokens is read from the rest. -/
theorem cut (h : Reads p cs (t :: ts)) (hrest : rest <:+ ts) (hboundary : rest = [] ∨ starts rest = true) :
    ∃ slice back, cs = slice ++ back ∧ slice ≠ [] ∧ Reads (p.after slice) back rest ∧
      t :: ts = (Token.scan 0 p slice).1 ++ rest := by
  rcases hboundary with rfl | hstarts
  · refine ⟨cs, [], (List.append_nil cs).symm, ?_, ⟨rfl, fun c hc ↦ nomatch hc⟩, ?_⟩
    · rintro rfl
      cases h.scan
    · rw [h.scan, List.append_nil]
  · have hsuffix : rest <:+ (Token.scan 0 p cs).1 := by
      rw [h.scan]
      exact hrest.trans (List.suffix_cons t ts)
    obtain ⟨slice, c, back, rfl, hc, hscan, -, hfront⟩ := scan_cut hsuffix hstarts
    refine ⟨slice, c :: back, rfl, ?_, ⟨hscan, ?_⟩, h.scan.symm.trans hfront⟩
    · rintro rfl
      have hwhole : t :: ts = rest := h.scan.symm.trans hscan
      rw [← hwhole] at hrest
      exact Nat.not_succ_le_self _ hrest.length_le
    · intro d hd
      cases hd
      exact hc

end Reads

structure Tile where
  tokens : List Token
  slice : List Char

/-- The slice begins with its first token and has all of the tokens, apart from where they stand. -/
structure Tile.Whole (tile : Tile) : Prop where
  flush : ∀ c ∈ tile.slice.head?, isBlank c = false
  kinds : (tokenize tile.slice).1.map (·.kind) = tile.tokens.map (·.kind)

/-- What a statement takes from its tile: the place behind the text before it, its own text, and what is read from its
tokens and those that follow. -/
structure Fits (k : Nat) (before : List Char) (tile : Tile) (following : List Token) (st : Statement) : Prop where
  index : st.index = k
  tokens : tile.tokens ≠ []
  starts : 0 < k → starts (tile.tokens ++ following) = true
  read : readStatement (tile.tokens ++ following) = (st.header, st.body, following)
  line : st.position.line = before.count '\n' + 1
  column : st.position.column = (before.reverse.takeWhile (· != '\n')).length + 1
  offset : st.position.offset = octets before
  text : st.text = String.ofList (trimEnd tile.slice)
  visible : st.text ≠ ""

inductive Tiled : Nat → List Char → List Tile → List Statement → Prop
  | nil (index : Nat) (before : List Char) : Tiled index before [] []
  | cons {index : Nat} {before : List Char} {tile : Tile} {tiles : List Tile} {st : Statement} {sts : List Statement}
      (fits : Fits index before tile (tiles.flatMap (·.tokens)) st)
      (further : Tiled (index + 1) (before ++ tile.slice) tiles sts) : Tiled index before (tile :: tiles) (st :: sts)

theorem trim_of_not_blank {c : Char} (hc : isBlank c = false) (cs : List Char) :
    trim (c :: cs) = trimEnd (c :: cs) := by
  rw [trim, trimStart_cons_of_not_blank hc]

theorem trimEnd_ne_nil {c : Char} (hc : isBlank c = false) (cs : List Char) : trimEnd (c :: cs) ≠ [] := by
  intro hnil
  have hblank := List.dropWhile_eq_nil_iff.mp (List.reverse_eq_nil_iff.mp hnil) c (by simp)
  rw [hc] at hblank
  cases hblank

/-- The first statement takes the text up to where the rest of the tokens is read. -/
theorem readAll_slice {before slice back : List Char} {t : Token} {used rest : List Token} {header : Header}
    {body : Body} (hposition : t.position = Position.start.after before)
    (hread : readStatement (t :: (used ++ rest)) = (header, body, rest))
    (hreads : Reads (Position.start.after (before ++ slice)) back rest) (index : Nat) :
    readAll (Position.start.after (before ++ slice ++ back)).offset 0 index (slice ++ back) (t :: (used ++ rest)) =
      { index, position := t.position, header, body, text := String.ofList (trim slice) } ::
        readAll (Position.start.after (before ++ slice ++ back)).offset 0 (index + 1) back rest := by
  have hcovered : (used ++ rest).length - rest.length = used.length := by
    rw [List.length_append, Nat.add_sub_cancel]
  have hoffset : t.position.offset = octets before := by
    rw [hposition, Position.start_after]
  rw [readAll_cons hread hreads.finish, hoffset, octets_append, Nat.add_sub_cancel_left, splitOctets_append, hcovered,
    readAll_covered]

theorem Fits.of_read {index : Nat} {before slice : List Char} {t : Token} {used rest : List Token} {header : Header}
    {body : Body} {c : Char} (hc : isBlank c = false) (hposition : t.position = Position.start.after before)
    (hstarts : 0 < index → Statement.starts (t :: (used ++ rest)) = true)
    (hread : readStatement (t :: (used ++ rest)) = (header, body, rest)) :
    Fits index before ⟨t :: used, c :: slice⟩ rest
      { index, position := t.position, header, body, text := String.ofList (trim (c :: slice)) } := by
  constructor
  case index => rfl
  case tokens => exact List.cons_ne_nil t used
  case starts => exact hstarts
  case read => exact hread
  case line => rw [hposition, Position.start_after]
  case column => rw [hposition, Position.start_after]
  case offset => rw [hposition, Position.start_after]
  case text => rw [trim_of_not_blank hc]
  case visible =>
    intro hempty
    have hnil := congrArg String.toList hempty
    rw [trim_of_not_blank hc, String.toList_ofList] at hnil
    exact trimEnd_ne_nil hc slice hnil

theorem exists_whole_tiles {before cs : List Char} {tokens : List Token}
    (h : Reads (Position.start.after before) cs tokens)
    (index : Nat) (hstarts : 0 < index → tokens = [] ∨ starts tokens = true) :
    ∃ tiles : List Tile, tiles.flatMap (·.tokens) = tokens ∧ tiles.flatMap (·.slice) = cs ∧
      Tiled index before tiles (readAll (Position.start.after (before ++ cs)).offset 0 index cs tokens) ∧
      ∀ tile ∈ tiles, tile.Whole := by
  induction hlength : tokens.length using Nat.strongRecOn generalizing before cs tokens index with
  | ind n ih =>
    rcases h.nil_or_cons with ⟨rfl, rfl⟩ | ⟨c, _, t, ts, hfirst, hc, rfl, hposition⟩
    · exact ⟨[], rfl, rfl, .nil index before, fun _ h ↦ absurd h List.not_mem_nil⟩
    rcases hread : readStatement (t :: ts) with ⟨header, body, rest⟩
    have hsuffix := readStatement_suffix t ts
    have hboundary := readStatement_boundary (t :: ts)
    rw [hread] at hsuffix hboundary
    obtain ⟨slice, back, rfl, hslice, hreads, hfront⟩ := h.cut hsuffix hboundary
    obtain ⟨used, rfl⟩ := hsuffix
    rw [← List.cons_append, List.append_cancel_right_eq] at hfront
    obtain ⟨d, slice, rfl⟩ := List.exists_cons_of_ne_nil hslice
    cases (List.cons.inj hfirst).1
    rw [← after_append] at hreads
    have hfewer : rest.length < n := by
      rw [← hlength, List.length_cons, List.length_append]
      exact Nat.lt_succ_of_le (Nat.le_add_left _ _)
    obtain ⟨tiles, htokens, hslices, htiled, hwhole⟩ :=
      ih rest.length hfewer hreads (index + 1) (fun _ ↦ hboundary) rfl
    refine ⟨⟨t :: used, c :: slice⟩ :: tiles, ?_, ?_, ?_, List.forall_mem_cons.mpr ⟨⟨?_, ?_⟩, hwhole⟩⟩
    · rw [List.flatMap_cons, htokens]
      rfl
    · rw [List.flatMap_cons, hslices]
    · rw [← List.append_assoc, readAll_slice hposition hread hreads]
      refine .cons ?_ htiled
      rw [htokens]
      exact .of_read hc hposition (fun hindex ↦ (hstarts hindex).resolve_left (List.cons_ne_nil _ _)) hread
    · intro d hd
      cases hd
      exact hc
    · rw [hfront]
      exact kinds_scan 0 _ _ _

theorem exists_tiles {before cs : List Char} {tokens : List Token} (h : Reads (Position.start.after before) cs tokens)
    (index : Nat) (hstarts : 0 < index → tokens = [] ∨ starts tokens = true) :
    ∃ tiles : List Tile, tiles.flatMap (·.tokens) = tokens ∧ tiles.flatMap (·.slice) = cs ∧
      Tiled index before tiles (readAll (Position.start.after (before ++ cs)).offset 0 index cs tokens) := by
  obtain ⟨tiles, htokens, hslices, htiled, -⟩ := exists_whole_tiles h index hstarts
  exact ⟨tiles, htokens, hslices, htiled⟩

namespace Tiled

variable {index : Nat} {before : List Char} {tiles : List Tile} {sts : List Statement}

theorem length_eq (h : Tiled index before tiles sts) : tiles.length = sts.length := by
  induction h with
  | nil => rfl
  | cons fits further ih => rw [List.length_cons, List.length_cons, ih]

theorem fits (h : Tiled index before tiles sts) {k : Nat} {st : Statement} (hst : sts[k]? = some st) :
    ∃ tile, tiles[k]? = some tile ∧
      Fits (index + k) (before ++ (tiles.take k).flatMap (·.slice)) tile
        ((tiles.drop (k + 1)).flatMap (·.tokens)) st := by
  induction h generalizing k with
  | nil => cases hst
  | @cons index before tile tiles st' sts fits further ih =>
    cases k with
    | zero =>
      cases hst
      rw [List.take_zero, List.flatMap_nil, List.append_nil]
      exact ⟨tile, rfl, fits⟩
    | succ k =>
      obtain ⟨tile', htile, hfits⟩ := ih hst
      rw [Nat.add_assoc, Nat.add_comm 1, List.append_assoc] at hfits
      rw [List.take_succ_cons, List.flatMap_cons]
      exact ⟨tile', htile, hfits⟩

end Tiled

theorem reads_scan (p : Position) (cs : List Char) :
    Reads (p.after (cs.takeWhile isBlank)) (trimStart cs) (scan 0 p cs).1 := by
  induction cs generalizing p with
  | nil => exact ⟨rfl, fun c hc ↦ nomatch hc⟩
  | cons c cs ih =>
    cases hc : isBlank c with
    | true =>
      rw [List.takeWhile_cons_of_pos hc, trimStart_cons_of_blank hc, scan, if_pos hc]
      exact ih (p.advance c)
    | false =>
      rw [List.takeWhile_cons_of_neg (by rw [hc]; exact Bool.false_ne_true), trimStart_cons_of_not_blank hc]
      refine ⟨rfl, fun d hd ↦ ?_⟩
      cases hd
      exact hc

/-- The tokens and the text, without the blanks in front, are divided among the statements in order. A statement is read
from its own tokens, and all but the first begin where a statement starts; it stands where its slice begins, and its
text is the slice without the blanks at the end. -/
theorem statements_tile_source (source : List Char) :
    ∃ tiles : List Tile, tiles.length = (parse source).length ∧
      tiles.flatMap (·.tokens) = (tokenize source).1 ∧ tiles.flatMap (·.slice) = trimStart source ∧
      ∀ k st, (parse source)[k]? = some st → ∃ tile, tiles[k]? = some tile ∧
        Fits k (source.takeWhile isBlank ++ (tiles.take k).flatMap (·.slice)) tile
          ((tiles.drop (k + 1)).flatMap (·.tokens)) st ∧
        st.position.offset + octets tile.slice =
          (parse source)[k + 1]?.elim (octets source) (·.position.offset) := by
  have hsource : source.takeWhile isBlank ++ trimStart source = source := List.takeWhile_append_dropWhile
  obtain ⟨tiles, htokens, hslices, htiled⟩ :=
    exists_tiles (reads_scan .start source) 0 fun h ↦ absurd h (Nat.lt_irrefl 0)
  have hparse : readAll (Position.start.after source).offset 0 0 (trimStart source) (scan 0 .start source).1 =
      parse source := by
    rw [← scan_snd 0]
    rfl
  rw [hsource, hparse] at htiled
  refine ⟨tiles, htiled.length_eq, htokens, hslices, fun k st hst ↦ ?_⟩
  obtain ⟨tile, htile, hfits⟩ := htiled.fits hst
  rw [Nat.zero_add] at hfits
  refine ⟨tile, htile, hfits, ?_⟩
  have hnext : octets (source.takeWhile isBlank ++ (tiles.take (k + 1)).flatMap (·.slice)) =
      st.position.offset + octets tile.slice := by
    rw [hfits.offset, ← octets_append, List.append_assoc, List.take_add_one, htile, List.flatMap_append]
    simp
  cases hst' : (parse source)[k + 1]? with
  | some next =>
    obtain ⟨_, -, hfits'⟩ := htiled.fits hst'
    rw [← hnext, Option.elim_some, hfits'.offset]
  | none =>
    have hlength : tiles.length ≤ k + 1 := by
      rw [htiled.length_eq]
      exact List.getElem?_eq_none_iff.mp hst'
    rw [← hnext, List.take_of_length_le hlength, hslices, hsource]
    rfl

end Statement

end Intercal
