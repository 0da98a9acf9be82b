import Intercal.Proofs.Lexicon
import Intercal.Proofs.Tiling

namespace Intercal

open Text

section Octets

variable {front back cs ds : List Char}

theorem octets_pos (h : cs ≠ []) : 0 < octets cs := by
  obtain ⟨c, cs, rfl⟩ := List.exists_cons_of_ne_nil h
  exact Nat.add_pos_left c.utf8Size_pos _

theorem octets_lt_append (h : back ≠ []) : octets front < octets (front ++ back) := by
  have hpos := octets_pos h
  rw [octets_append]
  omega

theorem octets_le_append (front back : List Char) : octets front ≤ octets (front ++ back) := by
  rw [octets_append]
  exact Nat.le_add_right _ _

/-- Of two fronts of one text, the shorter has fewer octets. -/
theorem octets_lt_iff (hsource : cs ++ front = ds ++ back) : octets cs < octets ds ↔ cs.length < ds.length := by
  rcases List.append_eq_append_iff.mp hsource with ⟨more, rfl, -⟩ | ⟨more, rfl, -⟩
  · cases more with
    | nil => simp
    | cons c more =>
      have hlt : octets cs < octets (cs ++ c :: more) := octets_lt_append (List.cons_ne_nil c more)
      simp [hlt]
  · have hle := octets_le_append ds more
    simp only [List.length_append]
    omega

theorem eq_of_octets_eq (hsource : cs ++ front = ds ++ back) (h : octets cs = octets ds) : cs = ds := by
  have hlt := octets_lt_iff hsource
  have hgt := octets_lt_iff hsource.symm
  exact List.append_inj_left hsource (by omega)

theorem Position.offset_start_after (cs : List Char) : (start.after cs).offset = octets cs := by rw [start_after]

end Octets

namespace Token

/-- The tokens of a text and, as the last entry, its end, which is of no kind. -/
def entries (source : List Char) : List (Option Kind × Position) :=
  (tokenize source).1.map (fun t ↦ (some t.kind, t.position)) ++ [(none, (tokenize source).2)]

def stream (source : List Char) : List (Option Kind) := (entries source).map (·.1)

def offsets (source : List Char) : List Nat := (entries source).map (·.2.offset)

def stationed (source : List Char) (offset : Nat) : List (Option Kind) :=
  ((entries source).filter (·.2.offset = offset)).map (·.1)

structure Adjacent (os : List Nat) (o o' : Nat) : Prop where
  left : o ∈ os
  right : o' ∈ os
  lt : o < o'
  apart : ∀ m ∈ os, m ≤ o ∨ o' ≤ m

/-- A lexeme with the blanks behind it, what stands before and after them, and the kinds of the tokens. -/
@[ext]
structure Span where
  before : List Char
  lexeme : List Char
  gap : List Char
  after : List Char
  kinds : List Kind

namespace Span

def text (s : Span) : List Char := s.lexeme ++ s.gap

def start (s : Span) : Nat := octets s.before

def stop (s : Span) : Nat := octets (s.before ++ s.text)

def tokens (s : Span) : List Token := s.kinds.map (⟨·, Position.start.after s.before⟩)

/-- The lexeme is the longest where it stands, only blanks follow it, and by itself the span has the same tokens. -/
structure Whole (s : Span) : Prop where
  spells : Spells s.lexeme s.kinds
  longest : ∀ text ks, Spells text ks → text <+: s.text ++ s.after → text.length ≤ s.lexeme.length
  blank : ∀ c ∈ s.gap, isBlank c = true
  alone : stream s.text = s.kinds.map some ++ [none]

structure Of (source : List Char) (s : Span) : Prop extends s.Whole where
  source_eq : s.before ++ s.text ++ s.after = source
  adjacent : Adjacent (offsets source) s.start s.stop
  stationed_eq : stationed source s.start = s.kinds.map some

variable {s : Span} {t : Token}

theorem offset_of_mem (ht : t ∈ s.tokens) : t.position.offset = s.start := by
  obtain ⟨k, -, rfl⟩ := List.mem_map.mp ht
  exact Position.offset_start_after s.before

theorem Whole.exists_token (h : s.Whole) : ∃ t ∈ s.tokens, t.position.offset = s.start := by
  have htokens : s.tokens ≠ [] := by simpa [Span.tokens] using h.spells.kinds_ne_nil
  obtain ⟨t, ht⟩ := List.exists_mem_of_ne_nil _ htokens
  exact ⟨t, ht, offset_of_mem ht⟩

theorem Whole.text_ne_nil (h : s.Whole) : s.text ≠ [] := by simp [Span.text, h.spells.ne_nil]

theorem Whole.start_lt_stop (h : s.Whole) : s.start < s.stop := octets_lt_append h.text_ne_nil

/-- The lexeme and the blanks behind it can be told apart. -/
theorem Whole.lexeme_eq (h : s.Whole) : s.text.takeWhile (!isBlank ·) = s.lexeme := by
  refine takeWhile_append_eq (fun c hc ↦ ?_) fun c hc ↦ ?_
  · rw [h.spells.solid c hc]
    rfl
  · rw [h.blank c (List.mem_of_mem_head? hc)]
    rfl

theorem Whole.of_lexeme {before w gap after : List Char} {c : Char} {ks : List Kind} (hc : isBlank c = false)
    (hlexeme : Token.lexeme c (w ++ (gap ++ after)) = (ks, w.length + 1)) (hspells : Spells (c :: w) ks)
    (hgap : ∀ x ∈ gap, isBlank x = true) : Whole ⟨before, c :: w, gap, after, ks⟩ := by
  constructor
  case spells => exact hspells
  case longest =>
    rintro text ks' htext ⟨rest, hrest⟩
    have hsource : text ++ rest = c :: (w ++ (gap ++ after)) := by simpa [Span.text] using hrest
    have hle := htext.length_le_lexeme hsource
    rwa [hlexeme] at hle
  case blank => exact hgap
  case alone =>
    have hfront : Token.lexeme c (w ++ gap) = (ks, w.length + 1) := by
      rw [← hlexeme, ← List.append_assoc]
      refine (lexeme_append ?_).symm
      rw [List.append_assoc, hlexeme, List.length_append]
      omega
    have hscan : (tokenize (c :: (w ++ gap))).1 = ks.map (⟨·, Position.start⟩) := by
      rw [tokenize, scan_of_not_blank hc, hfront, Nat.add_sub_cancel, scan_covered, scan_blanks hgap, List.append_nil]
    simp [stream, entries, Span.text, hscan]

end Span

/-- Tokens of a text that stands behind another, span by span. -/
inductive Laid : List Char → List Char → List Token → Prop
  | nil (before : List Char) : Laid before [] []
  | cons {s : Span} {ts : List Token} (whole : s.Whole) (further : Laid (s.before ++ s.text) s.after ts) :
      Laid s.before (s.text ++ s.after) (s.tokens ++ ts)

theorem laid_of_reads {before cs : List Char} {ts : List Token}
    (h : Statement.Reads (Position.start.after before) cs ts) : Laid before cs ts := by
  induction hlength : cs.length using Nat.strongRecOn generalizing before cs ts with
  | ind n ih =>
    obtain ⟨rfl, hflush⟩ := h
    cases cs with
    | nil => exact .nil before
    | cons c cs =>
      have hc := hflush c rfl
      obtain ⟨w, rest, ks, rfl, hlexeme, hspells⟩ := lexeme_spells hc cs
      have hsplit : rest.takeWhile isBlank ++ trimStart rest = rest := List.takeWhile_append_dropWhile
      have hgap : ∀ x ∈ rest.takeWhile isBlank, isBlank x = true := List.all_eq_true.mp List.all_takeWhile
      have hreads := Statement.reads_scan ((Position.start.after before).after (c :: w)) rest
      have hscan : (scan 0 (Position.start.after before) (c :: (w ++ rest))).1 =
          ks.map (⟨·, Position.start.after before⟩) ++
            (scan 0 ((Position.start.after before).after (c :: w)) rest).1 := by
        rw [scan_of_not_blank hc, hlexeme, Nat.add_sub_cancel, scan_covered]
        rfl
      rw [← after_append, ← after_append] at hreads
      generalize rest.takeWhile isBlank = gap at *
      generalize trimStart rest = after at *
      subst hsplit
      have hshort : after.length < n := by
        simp only [← hlength, List.length_cons, List.length_append]
        omega
      have hwhole : Span.Whole ⟨before, c :: w, gap, after, ks⟩ := .of_lexeme hc hlexeme hspells hgap
      have hlaid := Laid.cons hwhole (ih _ hshort hreads rfl)
      rw [hscan]
      simpa [Span.text, Span.tokens] using hlaid

structure Span.Parts (source : List Char) (ts : List Token) (s : Span) (front back : List Token) : Prop where
  whole : s.Whole
  source_eq : s.before ++ s.text ++ s.after = source
  tokens_eq : ts = front ++ s.tokens ++ back
  front : ∀ t ∈ front, t.position.offset < s.start
  back : Laid (s.before ++ s.text) s.after back

namespace Laid

variable {before text : List Char} {ts : List Token} {t : Token}

theorem placed (h : Laid before text ts) (ht : t ∈ ts) :
    ∃ front back, text = front ++ back ∧ back ≠ [] ∧ t.position = Position.start.after (before ++ front) := by
  induction h with
  | nil => cases ht
  | @cons s ts whole further ih =>
    rcases List.mem_append.mp ht with ht | ht
    · obtain ⟨k, -, rfl⟩ := List.mem_map.mp ht
      exact ⟨[], s.text ++ s.after, rfl, by simp [whole.text_ne_nil], by rw [List.append_nil]⟩
    · obtain ⟨front, back, hafter, hback, hposition⟩ := ih ht
      exact ⟨s.text ++ front, back, by rw [hafter, List.append_assoc], hback, by rw [hposition, List.append_assoc]⟩

theorem offset_ge (h : Laid before text ts) (ht : t ∈ ts) : octets before ≤ t.position.offset := by
  obtain ⟨front, back, -, -, hposition⟩ := h.placed ht
  rw [hposition, Position.offset_start_after]
  exact octets_le_append before front

theorem first (h : Laid before text ts) (htext : text ≠ []) : ∃ t ∈ ts, t.position.offset = octets before := by
  cases h with
  | nil => exact absurd rfl htext
  | @cons s ts whole further =>
    obtain ⟨t, ht, hoffset⟩ := whole.exists_token
    exact ⟨t, List.mem_append_left _ ht, hoffset⟩

theorem sorted (h : Laid before text ts) : ts.Pairwise (·.position.offset ≤ ·.position.offset) := by
  induction h with
  | nil => exact .nil
  | @cons s ts whole further ih =>
    rw [List.pairwise_append]
    refine ⟨List.pairwise_of_forall_mem_list fun t ht u hu ↦ ?_, ih, fun t ht u hu ↦ ?_⟩
    · rw [Span.offset_of_mem ht, Span.offset_of_mem hu]
    · have hle : s.stop ≤ u.position.offset := further.offset_ge hu
      rw [Span.offset_of_mem ht]
      exact (octets_le_append _ _).trans hle

/-- Every place in the text falls into a span. -/
theorem parts (h : Laid before text ts) {n : Nat} (hle : before.length ≤ n) (hlt : n < (before ++ text).length) :
    ∃ (s : Span) (front back : List Token), s.Parts (before ++ text) ts front back ∧ octets before ≤ s.start ∧
      s.before.length ≤ n ∧ n < (s.before ++ s.text).length := by
  induction h with
  | nil =>
    rw [List.append_nil] at hlt
    omega
  | @cons s ts whole further ih =>
    by_cases hn : n < (s.before ++ s.text).length
    · exact ⟨s, [], ts, ⟨whole, List.append_assoc _ _ _, rfl, by simp, further⟩, Nat.le_refl _, hle, hn⟩
    · rw [← List.append_assoc] at hlt
      obtain ⟨s', front, back, hparts, hstart, hn'⟩ := ih (Nat.le_of_not_lt hn) hlt
      have hbefore : s.start < s'.start := whole.start_lt_stop.trans_le hstart
      refine ⟨s', s.tokens ++ front, back, ⟨hparts.whole, ?_, ?_, ?_, hparts.back⟩, hbefore.le, hn'⟩
      · rw [hparts.source_eq, List.append_assoc]
      · simp [hparts.tokens_eq]
      · intro t ht
        rcases List.mem_append.mp ht with ht | ht
        · rwa [Span.offset_of_mem ht]
        · exact hparts.front t ht

end Laid

variable {source : List Char}

theorem end_tokenize (source : List Char) : (tokenize source).2 = Position.start.after source :=
  scan_snd 0 .start source

theorem laid_tokenize (source : List Char) :
    Laid (source.takeWhile isBlank) (trimStart source) (tokenize source).1 :=
  laid_of_reads (Statement.reads_scan .start source)

theorem lead_append (source : List Char) : source.takeWhile isBlank ++ trimStart source = source :=
  List.takeWhile_append_dropWhile

/-- A token stands before a character, which is behind the first blanks. -/
theorem placed_token {t : Token} (ht : t ∈ (tokenize source).1) :
    ∃ before after, before ++ after = source ∧ after ≠ [] ∧ (source.takeWhile isBlank).length ≤ before.length ∧
      t.position = Position.start.after before := by
  obtain ⟨front, back, htrim, hback, hposition⟩ := (laid_tokenize source).placed ht
  refine ⟨source.takeWhile isBlank ++ front, back, ?_, hback, by simp, hposition⟩
  rw [List.append_assoc, ← htrim, lead_append]

theorem mem_offsets {o : Nat} :
    o ∈ offsets source ↔ (∃ t ∈ (tokenize source).1, t.position.offset = o) ∨ o = octets source := by
  simp [offsets, entries, end_tokenize, Position.offset_start_after, eq_comm]

theorem offset_lt_octets {t : Token} (ht : t ∈ (tokenize source).1) : t.position.offset < octets source := by
  obtain ⟨before, after, rfl, hafter, -, hposition⟩ := placed_token ht
  rw [hposition, Position.offset_start_after]
  exact octets_lt_append hafter

theorem stationed_tokens (source : List Char) (o : Nat) :
    stationed source o = ((tokenize source).1.filter (·.position.offset = o)).map (fun t ↦ some t.kind) ++
      if octets source = o then [none] else [] := by
  by_cases hend : octets source = o <;>
    simp [stationed, entries, end_tokenize, Position.offset_start_after, List.filter_map, Function.comp_def, hend]

namespace Span

variable {s s' : Span} {front back : List Token}

theorem Parts.stationed_eq (h : s.Parts source (tokenize source).1 front back) :
    stationed source s.start = s.kinds.map some := by
  have hend : s.start < octets source := by
    rw [← h.source_eq]
    exact (h.whole.start_lt_stop).trans_le (octets_le_append _ _)
  have hfront : front.filter (fun t ↦ t.position.offset = s.start) = [] := by
    rw [List.filter_eq_nil_iff]
    intro t ht
    have hlt := h.front t ht
    simp only [decide_eq_true_eq]
    omega
  have hback : back.filter (fun t ↦ t.position.offset = s.start) = [] := by
    rw [List.filter_eq_nil_iff]
    intro t ht
    have hlt := h.whole.start_lt_stop
    have hge : s.stop ≤ t.position.offset := h.back.offset_ge ht
    simp only [decide_eq_true_eq]
    omega
  have hown : s.tokens.filter (fun t ↦ t.position.offset = s.start) = s.tokens := by
    rw [List.filter_eq_self]
    intro t ht
    simpa using offset_of_mem ht
  rw [stationed_tokens, h.tokens_eq, List.filter_append, List.filter_append, hfront, hown, hback, if_neg hend.ne']
  simp [Span.tokens]

theorem Parts.adjacent (h : s.Parts source (tokenize source).1 front back) :
    Adjacent (offsets source) s.start s.stop := by
  have hlt := h.whole.start_lt_stop
  have hstop : s.stop ≤ octets source := by
    rw [← h.source_eq]
    exact octets_le_append _ _
  constructor
  case left =>
    obtain ⟨t, ht, hoffset⟩ := h.whole.exists_token
    refine mem_offsets.mpr (.inl ⟨t, ?_, hoffset⟩)
    rw [h.tokens_eq]
    exact List.mem_append_left _ (List.mem_append_right _ ht)
  case right =>
    rw [mem_offsets]
    by_cases hafter : s.after = []
    · right
      rw [← h.source_eq, hafter, List.append_nil]
      rfl
    · left
      obtain ⟨t, ht, hoffset⟩ := h.back.first hafter
      refine ⟨t, ?_, hoffset⟩
      rw [h.tokens_eq]
      exact List.mem_append_right _ ht
  case lt => exact hlt
  case apart =>
    intro m hm
    rcases mem_offsets.mp hm with ⟨t, ht, rfl⟩ | rfl
    · rw [h.tokens_eq, List.mem_append, List.mem_append] at ht
      rcases ht with (ht | ht) | ht
      · exact .inl (h.front t ht).le
      · exact .inl (offset_of_mem ht).le
      · exact .inr (h.back.offset_ge ht)
    · exact .inr hstop

theorem Parts.of (h : s.Parts source (tokenize source).1 front back) : s.Of source :=
  ⟨h.whole, h.source_eq, h.adjacent, h.stationed_eq⟩

/-- Every place behind the first blanks of a text falls into a span of it. -/
theorem exists_of {n : Nat} (hle : (source.takeWhile isBlank).length ≤ n) (hlt : n < source.length) :
    ∃ s : Span, s.Of source ∧ s.before.length ≤ n ∧ n < (s.before ++ s.text).length := by
  rw [← lead_append source] at hlt
  obtain ⟨s, front, back, hparts, -, hn⟩ := (laid_tokenize source).parts hle hlt
  rw [lead_append] at hparts
  exact ⟨s, hparts.of, hn⟩

theorem Of.before_append (h : s.Of source) : s.before ++ (s.text ++ s.after) = source := by
  rw [← List.append_assoc, h.source_eq]

/-- No token stands within a span but where it begins. -/
theorem Of.start_eq (h : s.Of source) {place rest : List Char} (hsource : place ++ rest = source)
    (hmem : octets place ∈ offsets source) (hle : s.before.length ≤ place.length)
    (hlt : place.length < (s.before ++ s.text).length) : s.start = octets place := by
  have hstop : octets place < s.stop := (octets_lt_iff (hsource.trans h.source_eq.symm)).mpr hlt
  have hstart : ¬ octets place < s.start := by
    rw [Span.start, octets_lt_iff (hsource.trans h.before_append.symm)]
    exact hle.not_gt
  rcases h.adjacent.apart _ hmem with hbefore | hbehind <;> omega

/-- A token stands where a span begins. -/
theorem exists_of_token {t : Token} (ht : t ∈ (tokenize source).1) :
    ∃ s : Span, s.Of source ∧ s.start = t.position.offset := by
  obtain ⟨place, rest, hsource, hrest, hlead, hposition⟩ := placed_token ht
  have hoffset : t.position.offset = octets place := by rw [hposition, Position.offset_start_after]
  have hinside : place.length < source.length := by
    have hpos := List.length_pos_iff.mpr hrest
    rw [← hsource, List.length_append]
    omega
  obtain ⟨s, hs, hle, hlt⟩ := exists_of hlead hinside
  refine ⟨s, hs, ?_⟩
  rw [hoffset]
  exact hs.start_eq hsource (hoffset ▸ mem_offsets.mpr (.inl ⟨t, ht, rfl⟩)) hle hlt

theorem Of.stop_le (h : s.Of source) (h' : s'.Of source) (hstart : s.start = s'.start) : s'.stop ≤ s.stop := by
  have hlt := h.adjacent.lt
  rcases h'.adjacent.apart _ h.adjacent.right with hle | hle
  · omega
  · exact hle

theorem Of.eq (h : s.Of source) (h' : s'.Of source) (hstart : s.start = s'.start) : s = s' := by
  have hstop : s.stop = s'.stop := Nat.le_antisymm (h'.stop_le h hstart.symm) (h.stop_le h' hstart)
  have hsource := h.source_eq.trans h'.source_eq.symm
  have hbefore : s.before = s'.before := eq_of_octets_eq (h.before_append.trans h'.before_append.symm) hstart
  have htext : s.text = s'.text := by
    have hfront := eq_of_octets_eq hsource hstop
    rwa [hbefore, List.append_cancel_left_eq] at hfront
  have hlexeme : s.lexeme = s'.lexeme := by rw [← h.lexeme_eq, ← h'.lexeme_eq, htext]
  have hgap : s.gap = s'.gap := by
    have hfront : s.lexeme ++ s.gap = s'.lexeme ++ s'.gap := htext
    rwa [hlexeme, List.append_cancel_left_eq] at hfront
  have hafter : s.after = s'.after := by rwa [hbefore, htext, List.append_cancel_left_eq] at hsource
  have hkinds : s.kinds = s'.kinds := by
    have hmap : s.kinds.map some = s'.kinds.map some := by rw [← h.stationed_eq, ← h'.stationed_eq, hstart]
    exact (List.map_inj_right fun _ _ ↦ Option.some.inj).mp hmap
  exact Span.ext hbefore hlexeme hgap hafter hkinds

/-- No two spans have a place in common. -/
theorem Of.eq_of_common (h : s.Of source) (h' : s'.Of source) {n : Nat} (hle : s.before.length ≤ n)
    (hlt : n < (s.before ++ s.text).length) (hle' : s'.before.length ≤ n) (hlt' : n < (s'.before ++ s'.text).length) :
    s = s' := by
  apply h.eq h'
  rcases Nat.le_total s.before.length s'.before.length with hbefore | hbefore
  · exact h.start_eq h'.before_append h'.adjacent.left hbefore (hle'.trans_lt hlt)
  · exact (h'.start_eq h.before_append h.adjacent.left hbefore (hle.trans_lt hlt')).symm

end Span

theorem mem_of_within {before behind front part back : List Char} {c : Char}
    (h : before ++ c :: behind = front ++ part ++ back) (hle : front.length ≤ before.length)
    (hlt : before.length < (front ++ part).length) : c ∈ part := by
  have hget : (front ++ part ++ back)[before.length]? = some c := by
    rw [← h]
    simp
  rw [List.getElem?_append_left hlt, List.getElem?_append_right hle] at hget
  exact List.mem_of_getElem? hget

theorem existsUnique_span {before behind : List Char} {c : Char} (hsource : source = before ++ c :: behind)
    (hc : isBlank c = false) :
    ∃! s : Span, s.Of source ∧ s.before.length ≤ before.length ∧
      before.length < (s.before ++ s.lexeme).length := by
  have hlead : (source.takeWhile isBlank).length ≤ before.length := by
    by_contra hlt
    have hsplit : before ++ c :: behind = [] ++ source.takeWhile isBlank ++ trimStart source := by
      rw [List.nil_append, lead_append, hsource]
    have hmem : c ∈ source.takeWhile isBlank := mem_of_within hsplit (Nat.zero_le _) (Nat.lt_of_not_le hlt)
    have hblank := List.all_eq_true.mp List.all_takeWhile c hmem
    rw [hc] at hblank
    cases hblank
  have hinside : before.length < source.length := by simp [hsource]
  obtain ⟨s, hs, hle, hlt⟩ := Span.exists_of hlead hinside
  have hlexeme : before.length < (s.before ++ s.lexeme).length := by
    by_contra hge
    have hsplit : before ++ c :: behind = s.before ++ s.lexeme ++ s.gap ++ s.after := by
      rw [← hsource, ← hs.source_eq, Span.text]
      simp only [List.append_assoc]
    have hmem : c ∈ s.gap := mem_of_within hsplit (Nat.le_of_not_lt hge) (by rwa [List.append_assoc])
    rw [hs.blank c hmem] at hc
    cases hc
  refine ⟨s, ⟨hs, hle, hlexeme⟩, ?_⟩
  rintro s' ⟨hs', hle', hlexeme'⟩
  have hlt' : before.length < (s'.before ++ s'.text).length := by
    rw [Span.text, ← List.append_assoc, List.length_append]
    omega
  exact hs'.eq_of_common hs hle' hlt' hle hlt

theorem stationed_end (source : List Char) : stationed source (octets source) = [none] := by
  have hnone : (tokenize source).1.filter (fun t ↦ t.position.offset = octets source) = [] := by
    rw [List.filter_eq_nil_iff]
    intro t ht
    simpa using (offset_lt_octets ht).ne
  rw [stationed_tokens, hnone, if_pos rfl]
  rfl

theorem mem_entries {e : Option Kind × Position} :
    e ∈ entries source ↔
      (∃ t ∈ (tokenize source).1, e = (some t.kind, t.position)) ∨ e = (none, Position.start.after source) := by
  simp [entries, end_tokenize, eq_comm]

/-- Where an entry stands, told by the text before it. -/
theorem placed_entry {e : Option Kind × Position} (he : e ∈ entries source) :
    ∃ before after, source = before ++ after ∧ e.2 = Position.start.after before := by
  rcases mem_entries.mp he with ⟨t, ht, rfl⟩ | rfl
  · obtain ⟨before, after, hsource, -, -, hposition⟩ := placed_token ht
    exact ⟨before, after, hsource.symm, hposition⟩
  · exact ⟨source, [], (List.append_nil source).symm, rfl⟩

theorem offsets_sorted (source : List Char) : (offsets source).Pairwise (· ≤ ·) := by
  simp only [offsets, entries, List.map_append, List.map_map, List.pairwise_append, List.map_cons, List.map_nil,
    end_tokenize, Position.offset_start_after]
  refine ⟨List.pairwise_map.mpr (laid_tokenize source).sorted, List.pairwise_singleton _ _, ?_⟩
  intro o ho m hm
  obtain ⟨t, ht, rfl⟩ := List.mem_map.mp ho
  rw [List.mem_singleton.mp hm]
  exact (offset_lt_octets ht).le

theorem alone_or_double {e : Option Kind × Position} (he : e ∈ entries source) :
    stationed source e.2.offset = [e.1] ∨ ∃ s : Span, s.Of source ∧ s.start = e.2.offset ∧
      ∃ j k, Double s.lexeme j k ∧ stationed source e.2.offset = [some j, some k] := by
  have hown : e.1 ∈ stationed source e.2.offset :=
    List.mem_map_of_mem (List.mem_filter.mpr ⟨he, decide_eq_true rfl⟩)
  rcases mem_entries.mp he with ⟨t, ht, rfl⟩ | rfl
  · obtain ⟨s, hs, hstart⟩ := Span.exists_of_token ht
    have hstationed := hs.stationed_eq
    rw [hstart] at hstationed
    rcases hs.spells.single_or_double with ⟨k, hk⟩ | ⟨j, k, hk, hdouble⟩
    · rw [hstationed, hk, List.map_singleton] at hown
      rw [hstationed, hk, List.map_singleton, List.mem_singleton.mp hown]
      exact .inl rfl
    · refine .inr ⟨s, hs, hstart, j, k, hdouble, ?_⟩
      rw [hstationed, hk]
      rfl
  · left
    rw [Position.offset_start_after]
    exact stationed_end source

theorem adjacent_span {o o' : Nat} (h : Adjacent (offsets source) o o') :
    ∃ s : Span, s.Of source ∧ s.start = o ∧ s.stop = o' := by
  have hend : o' ≤ octets source := by
    rcases mem_offsets.mp h.right with ⟨t, ht, rfl⟩ | rfl
    · exact (offset_lt_octets ht).le
    · exact Nat.le_refl _
  have hlt := h.lt
  rcases mem_offsets.mp h.left with ⟨t, ht, rfl⟩ | rfl
  · obtain ⟨s, hs, hstart⟩ := Span.exists_of_token ht
    have hstop := hs.adjacent.lt
    refine ⟨s, hs, hstart, ?_⟩
    have hright := hs.adjacent.apart _ h.right
    have hleft := h.apart _ hs.adjacent.right
    omega
  · omega

/-- Tokens stand where the lexemes of a text begin, and its end behind all of them. Line and column count the newlines
before a token and the characters since the last one, and only the two tokens of a contraction or of `!` stand at the
same offset. From an offset to the next there is one lexeme, the longest that stands there, with blanks behind it, and
this part by itself has the same tokens. So each character that is not blank belongs to just one lexeme. -/
theorem placed_and_covered (source : List Char) :
    (∃ tokens stop, entries source = tokens ++ [(none, stop)] ∧ (∀ e ∈ tokens, e.1 ≠ none) ∧
      stop.offset = octets source) ∧
    (∀ e ∈ entries source, ∃ before after, source = before ++ after ∧ e.2.offset = octets before ∧
      e.2.line = before.count '\n' + 1 ∧ e.2.column = (before.reverse.takeWhile (· != '\n')).length + 1) ∧
    (offsets source).Pairwise (· ≤ ·) ∧
    (∀ e ∈ entries source, stationed source e.2.offset = [e.1] ∨
      ∃ s : Span, s.Of source ∧ s.start = e.2.offset ∧
        ∃ j k, Double s.lexeme j k ∧ stationed source e.2.offset = [some j, some k]) ∧
    (∀ o o', Adjacent (offsets source) o o' → ∃ s : Span, s.Of source ∧ s.start = o ∧ s.stop = o') ∧
    ∀ before c behind, source = before ++ c :: behind → isBlank c = false →
      ∃! s : Span, s.Of source ∧ s.before.length ≤ before.length ∧
        before.length < (s.before ++ s.lexeme).length := by
  refine ⟨⟨_, _, rfl, ?_, ?_⟩, ?_, offsets_sorted source, fun e ↦ alone_or_double, fun o o' ↦ adjacent_span,
    fun before c behind ↦ existsUnique_span⟩
  · intro e he
    obtain ⟨t, -, rfl⟩ := List.mem_map.mp he
    exact Option.some_ne_none _
  · rw [end_tokenize, Position.offset_start_after]
  · intro e he
    obtain ⟨before, after, hsource, hposition⟩ := placed_entry he
    refine ⟨before, after, hsource, ?_⟩
    rw [hposition, Position.start_after]
    exact ⟨rfl, rfl, rfl⟩

example : entries "DON'T !¢\n(1".toList =
    [(some (.word "DO"), ⟨1, 1, 0⟩), (some (.word "NOT"), ⟨1, 1, 0⟩), (some (.punctuation '\''), ⟨1, 7, 6⟩),
      (some (.punctuation '.'), ⟨1, 7, 6⟩), (some (.operator .mingle), ⟨1, 8, 7⟩),
      (some (.punctuation '('), ⟨2, 1, 10⟩), (some (.number 1), ⟨2, 2, 11⟩), (none, ⟨2, 3, 12⟩)] := by
  decide +kernel

end Token

end Intercal
