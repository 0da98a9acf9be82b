import Mathlib.Data.List.TakeDrop
import Mathlib.Data.Nat.Digits.Defs
import Intercal.Proofs.Octets
import Intercal.Proofs.Spelling
import Intercal.Proofs.TuringText

namespace Intercal

namespace Text

theorem trimEnd_append {cs gaps : List Char} (h : ∀ c ∈ gaps, isBlank c = true) :
    trimEnd (cs ++ gaps) = trimEnd cs := by
  have hreverse : ∀ c ∈ gaps.reverse, isBlank c = true := fun c hc ↦ h c (List.mem_reverse.mp hc)
  rw [trimEnd, List.reverse_append, List.dropWhile_append_of_pos hreverse]
  rfl

theorem trim_append_blanks {gaps : List Char} (h : ∀ c ∈ gaps, isBlank c = true) (cs : List Char) :
    trim (cs ++ gaps) = trim cs := by
  rw [trim, trim, trimStart, trimStart, List.dropWhile_append]
  split
  · next hempty => rw [List.isEmpty_iff.mp hempty, List.dropWhile_eq_nil_iff.mpr h]
  · exact trimEnd_append h

theorem trim_blanks_append {gaps : List Char} (h : ∀ c ∈ gaps, isBlank c = true) (cs : List Char) :
    trim (gaps ++ cs) = trim cs := by
  rw [trim, trimStart, List.dropWhile_append_of_pos h]
  rfl

theorem trim_of_visible {cs : List Char} (h : ∀ c ∈ cs, isBlank c = false) : trim cs = cs := by
  have hdrop {ds : List Char} (hds : ∀ c ∈ ds, isBlank c = false) : ds.dropWhile isBlank = ds := by
    cases ds with
    | nil => rfl
    | cons d ds => rw [List.dropWhile_cons_of_neg (by rw [hds d List.mem_cons_self]; exact Bool.false_ne_true)]
  have hreverse : ∀ c ∈ cs.reverse, isBlank c = false := fun c hc ↦ h c (List.mem_reverse.mp hc)
  rw [trim, trimStart, hdrop h, trimEnd, hdrop hreverse, List.reverse_reverse]

def placeValue (digits : List Char) : Nat := Nat.ofDigits 10 (digits.reverse.map fun c ↦ c.toNat - '0'.toNat)

theorem digitsValue_eq (digits : List Char) : digitsValue digits = placeValue digits := by
  rw [placeValue, Nat.ofDigits_eq_foldr, List.foldr_map, List.foldr_reverse, digitsValue]
  congr 1
  funext n c
  rw [Nat.mul_comm, Nat.add_comm]
  rfl

/-- The text is a row of digits, which may have a plus sign before it, and stands for the number. -/
def Numeral (cs : List Char) (n : Nat) : Prop :=
  ∃ sign digits, cs = sign ++ digits ∧ (sign = [] ∨ sign = ['+']) ∧ digits ≠ [] ∧
    (∀ c ∈ digits, c.isDigit = true) ∧ placeValue digits = n

def readDigits? (digits : List Char) : Option Nat :=
  if !digits.isEmpty && digits.all Char.isDigit && digitsValue digits ≤ maxWord then some (digitsValue digits) else none

theorem readDigits?_eq_some_iff {digits : List Char} {n : Nat} : readDigits? digits = some n ↔
    digits ≠ [] ∧ (∀ c ∈ digits, c.isDigit = true) ∧ placeValue digits = n ∧ n ≤ maxWord := by
  have hguard : (!digits.isEmpty && digits.all Char.isDigit && decide (digitsValue digits ≤ maxWord)) = true ↔
      digits ≠ [] ∧ (∀ c ∈ digits, c.isDigit = true) ∧ placeValue digits ≤ maxWord := by
    rw [Bool.and_eq_true, Bool.and_eq_true, Bool.not_eq_true', List.isEmpty_eq_false_iff, List.all_eq_true,
      decide_eq_true_eq, digitsValue_eq, and_assoc]
  rw [readDigits?]
  split
  · next h =>
    obtain ⟨hne, hdigits, hle⟩ := hguard.mp h
    rw [digitsValue_eq, Option.some.injEq]
    constructor
    · rintro rfl
      exact ⟨hne, hdigits, rfl, hle⟩
    · rintro ⟨-, -, hn, -⟩
      exact hn
  · next h =>
    refine iff_of_false nofun ?_
    rintro ⟨hne, hdigits, rfl, hle⟩
    exact h (hguard.mpr ⟨hne, hdigits, hle⟩)

theorem readWord?_signed (digits : List Char) : readWord? ('+' :: digits) = readDigits? digits := rfl

theorem readWord?_unsigned {cs : List Char} (h : ∀ rest, cs ≠ '+' :: rest) : readWord? cs = readDigits? cs := by
  unfold readWord?
  split
  · next rest => exact absurd rfl (h rest)
  · rfl

/-- Just the numerals up to the greatest word are read as numbers. -/
theorem readWord?_eq_some_iff {cs : List Char} {n : Nat} : readWord? cs = some n ↔ Numeral cs n ∧ n ≤ maxWord := by
  constructor
  · intro h
    by_cases hsign : ∃ rest, cs = '+' :: rest
    · obtain ⟨rest, rfl⟩ := hsign
      rw [readWord?_signed, readDigits?_eq_some_iff] at h
      obtain ⟨hne, hdigits, hvalue, hle⟩ := h
      exact ⟨⟨['+'], rest, rfl, .inr rfl, hne, hdigits, hvalue⟩, hle⟩
    · rw [readWord?_unsigned (not_exists.mp hsign), readDigits?_eq_some_iff] at h
      obtain ⟨hne, hdigits, hvalue, hle⟩ := h
      exact ⟨⟨[], cs, rfl, .inl rfl, hne, hdigits, hvalue⟩, hle⟩
  · rintro ⟨⟨sign, digits, rfl, hsign, hne, hdigits, hvalue⟩, hle⟩
    have hread : readDigits? digits = some n := readDigits?_eq_some_iff.mpr ⟨hne, hdigits, hvalue, hle⟩
    rcases hsign with rfl | rfl
    · rw [List.nil_append, readWord?_unsigned, hread]
      rintro rest rfl
      cases hdigits '+' List.mem_cons_self
    · exact hread

/-- Zeros in front do not count. -/
theorem placeValue_zeros {zeros : List Char} (h : ∀ c ∈ zeros, c = '0') (digits : List Char) :
    placeValue (zeros ++ digits) = placeValue digits := by
  rw [← digitsValue_eq, ← digitsValue_eq, digitsValue, List.foldl_append]
  induction zeros with
  | nil => rfl
  | cons c zeros ih =>
    rw [List.forall_mem_cons] at h
    obtain ⟨rfl, h⟩ := h
    exact ih h

theorem Numeral.visible {cs : List Char} {n : Nat} (h : Numeral cs n) : ∀ c ∈ cs, isBlank c = false := by
  obtain ⟨sign, digits, rfl, hsign, -, hdigits, -⟩ := h
  rw [List.forall_mem_append]
  refine ⟨?_, fun c hc ↦ isBlank_eq_false (.inr (hdigits c hc))⟩
  rcases hsign with rfl | rfl
  · nofun
  · exact List.forall_mem_singleton.mpr rfl

end Text

namespace Store

open Text

variable {s t : Store} {v : Variable} {x : Word} {line : List Char} {input rest : List UInt8}

def decimal (x : Word) : List Char := (toString x.toNat).toList

/-- The number stands on the line in decimal, with blanks around it; zeros and one plus sign may stand before it. -/
def Spells (x : Word) (line : List Char) : Prop :=
  ∃ front sign zeros back, line = front ++ (sign ++ (zeros ++ decimal x)) ++ back ∧
    (∀ c ∈ front ++ back, isBlank c = true ∧ c ≠ '\n') ∧ (sign = [] ∨ sign = ['+']) ∧ ∀ c ∈ zeros, c = '0'

theorem spells_decimal (x : Word) : Spells x (decimal x) :=
  ⟨[], [], [], [], (List.append_nil _).symm, nofun, .inl rfl, nofun⟩

theorem numeral_zeros_decimal {sign zeros : List Char} (hsign : sign = [] ∨ sign = ['+'])
    (hzeros : ∀ c ∈ zeros, c = '0') (x : Word) : Numeral (sign ++ (zeros ++ decimal x)) x.toNat := by
  refine ⟨sign, zeros ++ decimal x, rfl, hsign, ?_, ?_, ?_⟩
  · exact List.append_ne_nil_of_right_ne_nil _ (toString_ne_nil x.toNat)
  · rw [List.forall_mem_append]
    refine ⟨fun c hc ↦ ?_, fun c hc ↦ isDigit_of_mem_toString hc⟩
    rw [hzeros c hc]
    rfl
  · rw [placeValue_zeros hzeros, ← digitsValue_eq]
    exact digitsValue_toString x.toNat

namespace Spells

theorem numeral (h : Spells x line) : Numeral (trim line) x.toNat := by
  obtain ⟨front, sign, zeros, back, rfl, hblank, hsign, hzeros⟩ := h
  rw [List.forall_mem_append] at hblank
  have hnumeral := numeral_zeros_decimal hsign hzeros x
  rw [trim_append_blanks fun c hc ↦ (hblank.2 c hc).1, trim_blanks_append fun c hc ↦ (hblank.1 c hc).1,
    trim_of_visible hnumeral.visible]
  exact hnumeral

theorem inline (h : Spells x line) : '\n' ∉ line := by
  obtain ⟨front, sign, zeros, back, rfl, hblank, hsign, hzeros⟩ := h
  have hvisible := (numeral_zeros_decimal hsign hzeros x).visible
  rw [List.forall_mem_append] at hblank
  rw [List.mem_append, List.mem_append]
  rintro ((hmem | hmem) | hmem)
  · exact (hblank.1 _ hmem).2 rfl
  · cases hvisible _ hmem
  · exact (hblank.2 _ hmem).2 rfl

theorem ne_nil (h : Spells x line) : line ≠ [] := by
  rintro rfl
  obtain ⟨sign, digits, hnil, -, hne, -⟩ := h.numeral
  exact hne (List.append_eq_nil_iff.mp hnil.symm).2

end Spells

/-- The input starts with the line, which has its end or is the last one, and this is left after it. -/
inductive FirstLine (line : List Char) : List UInt8 → List UInt8 → Prop
  | ended (rest : List UInt8) : FirstLine line (Utf8.encode (line ++ ['\n']) ++ rest) rest
  | last (nonempty : line ≠ []) : FirstLine line (Utf8.encode line) []

theorem encode_concat (line : List Char) : Utf8.encode (line ++ ['\n']) = Utf8.encode line ++ [10] := by
  rw [Utf8.encode, List.flatMap_append]
  rfl

theorem ne_newline_of_mem {octets : List UInt8} (h : 10 ∉ octets) : ∀ b ∈ octets, (b != 10) = true := by
  intro b hb
  rw [bne_iff_ne]
  rintro rfl
  exact h hb

theorem splitLine_ended {octets : List UInt8} (h : 10 ∉ octets) (rest : List UInt8) :
    splitLine (octets ++ 10 :: rest) = (octets ++ [10], rest) := by
  have hwhile := ne_newline_of_mem h
  rw [splitLine, List.span_eq_takeWhile_dropWhile, List.takeWhile_append_of_pos hwhile,
    List.dropWhile_append_of_pos hwhile, List.takeWhile_cons_of_neg (by decide), List.dropWhile_cons_of_neg (by decide),
    List.append_nil]

theorem splitLine_last {octets : List UInt8} (h : 10 ∉ octets) : splitLine octets = (octets, []) := by
  have hwhile := ne_newline_of_mem h
  rw [splitLine, List.span_eq_takeWhile_dropWhile, List.takeWhile_eq_self_iff.mpr hwhile,
    List.dropWhile_eq_nil_iff.mpr hwhile]

theorem FirstLine.read (h : FirstLine line input rest) (hline : '\n' ∉ line) :
    ∃ octets text, input ≠ [] ∧ splitLine input = (octets, rest) ∧ Utf8.decode? octets = some text ∧
      trim text = trim line := by
  have hoctets : 10 ∉ Utf8.encode line := mt Utf8.newline_mem_encode.mp hline
  cases h with
  | ended rest =>
    refine ⟨Utf8.encode (line ++ ['\n']), line ++ ['\n'], ?_, ?_, Utf8.decode?_encode _, ?_⟩
    · rw [encode_concat, List.append_assoc]
      exact List.append_ne_nil_of_right_ne_nil _ (List.cons_ne_nil _ _)
    · rw [encode_concat, List.append_assoc]
      exact splitLine_ended hoctets rest
    · exact trim_append_blanks (List.forall_mem_singleton.mpr rfl) line
  | last hne =>
    refine ⟨Utf8.encode line, line, ?_, splitLine_last hoctets, Utf8.decode?_encode line, rfl⟩
    intro hnil
    have hdecode := Utf8.decode?_encode line
    rw [hnil] at hdecode
    cases hdecode
    exact hne rfl

theorem lineNumber_of_decode {octets : List UInt8} {text : List Char} (h : Utf8.decode? octets = some text) :
    lineNumber octets = (readWord? (trim text)).elim (.error (.notNumber (String.ofList (trim text))))
      fun n ↦ .ok (BitVec.ofNat 32 n) := by
  rw [lineNumber, h]
  dsimp only
  cases readWord? (trim text) <;> rfl

theorem run_writeIn_line (hv : v.kind.isArray = false) (hline : '\n' ∉ line) (h : FirstLine line s.input rest) :
    s.run (writeIn v) = (readWord? (trim line)).elim
      (.error (.notNumber (String.ofList (trim line))), { s with input := rest })
      fun n ↦ Store.run { s with input := rest } (write v (BitVec.ofNat 32 n)) := by
  obtain ⟨octets, text, hne, hsplit, hdecode, htrim⟩ := h.read hline
  have hread : s.run readLine = (.ok octets, { s with input := rest }) := by
    obtain ⟨b, bs, hinput⟩ := List.exists_cons_of_ne_nil hne
    simp only [run, readLine, hinput]
    rw [← hinput, hsplit]
  have hnumber := lineNumber_of_decode hdecode
  rw [htrim] at hnumber
  rw [writeIn, hv, if_neg Bool.false_ne_true, run_bind_ok hread, hnumber]
  cases readWord? (trim line) <;> rfl

/-- The octets of lines, of which the last one may lack its end. -/
def sheet (closed : Bool) (lines : List (List Char)) : List UInt8 :=
  if closed then lines.flatMap fun line ↦ Utf8.encode (line ++ ['\n'])
  else (lines.flatMap fun line ↦ Utf8.encode (line ++ ['\n'])).dropLast

theorem sheet_nil (closed : Bool) : sheet closed [] = [] := by cases closed <;> rfl

theorem firstLine_sheet (hline : line ≠ []) (closed : Bool) (lines : List (List Char)) :
    FirstLine line (sheet closed (line :: lines)) (sheet closed lines) := by
  cases closed with
  | true => exact .ended _
  | false =>
    cases lines with
    | nil =>
      have honly : sheet false [line] = Utf8.encode line := by
        rw [sheet, if_neg Bool.false_ne_true, List.flatMap_singleton, encode_concat, List.dropLast_concat]
      rw [honly]
      exact .last hline
    | cons next lines =>
      have hne : ((next :: lines).flatMap fun line ↦ Utf8.encode (line ++ ['\n'])) ≠ [] := by
        rw [List.flatMap_cons, encode_concat, List.append_assoc]
        exact List.append_ne_nil_of_right_ne_nil _ (List.cons_ne_nil _ _)
      have hfirst : sheet false (line :: next :: lines) =
          Utf8.encode (line ++ ['\n']) ++ sheet false (next :: lines) := by
        rw [sheet, sheet, if_neg Bool.false_ne_true, if_neg Bool.false_ne_true, List.flatMap_cons,
          List.dropLast_append_of_ne_nil hne]
      rw [hfirst]
      exact .ended _

theorem written_readOut (s : Store) (x : Word) :
    (s.run (Request.readOut x).serve).2.output.toList.drop s.output.size = Utf8.encode (decimal x ++ ['\n']) := by
  have hline : numberLine x = Utf8.encode (decimal x ++ ['\n']) := by
    rw [numberLine, String.toList_append]
    rfl
  have houtput : (s.run (Request.readOut x).serve).2.output.toList = s.output.toList ++ numberLine x := by
    rw [Request.serve, run_done]
    exact Array.toList_appendList
  rw [houtput, ← hline]
  exact List.drop_left

theorem written_readOuts (s : Store) (xs : List Word) :
    (serve s (xs.map .readOut)).1.flatMap (·.written) = sheet true (xs.map decimal) := by
  induction xs generalizing s with
  | nil => rfl
  | cons x xs ih =>
    rw [List.map_cons, serve_cons, List.flatMap_cons, ih, written_readOut]
    rfl

theorem run_write_fitting (hv : v.kind.isArray = false) (hignored : (s.cell v).ignored = false) (hx : v.Fits x) :
    ∃ t, s.run (write v x) = (.ok (), t) ∧ t.read v = .ok x ∧ t.input = s.input ∧
      ∀ w, (t.cell w).ignored = (s.cell w).ignored := by
  obtain ⟨t, hrun, hread⟩ : ∃ t, s.run (write v x) = (.ok (), t) ∧ t.read v = .ok x := by
    rw [ignored_scalar hv] at hignored
    refine ⟨{ s with scalars := s.scalars.insert v { s.scalars.cell v with value := x } }, ?_, ?_⟩
    · simp only [run, write, hv, Bool.false_eq_true, if_false, hignored, exceeds_of_fits hx, Bank.insert_touch]
    · simp only [read, hv, Bool.false_eq_true, if_false, Table.get?_insert_self]
  have hreplaces := write_replaces s v x
  rw [hrun] at hreplaces
  refine ⟨t, hrun, hread, hreplaces.streams.1, fun w ↦ ?_⟩
  rcases hreplaces.cell w with hcell | ⟨-, hsame, -⟩
  · rw [hcell]
  · exact hsame

theorem run_write_wide (hv : v.kind.isArray = false) (hignored : (s.cell v).ignored = false) (hx : ¬ v.Fits x) :
    ∃ t, s.run (write v x) = (.error (.tooWide v x), t) ∧ t.input = s.input := by
  rw [ignored_scalar hv] at hignored
  have hexceeds : exceeds v x = true := by
    by_cases h : exceeds v x = true
    · exact h
    · exact absurd (fits_of_not_exceeds h) hx
  refine ⟨{ s with scalars := s.scalars.touch v }, ?_, rfl⟩
  simp only [run, write, hv, Bool.false_eq_true, if_false, hignored, hexceeds, if_true]

structure Entry where
  target : Variable
  number : Word
  line : List Char

namespace Entry

def requests (e : Entry) : List Request := [.writeIn e.target, .read e.target]

def replies (e : Entry) : List (Except Fault Reply) := [.ok .done, .ok (.number e.number.toNat)]

structure Legible (s : Store) (e : Entry) : Prop where
  scalar : e.target.kind.isArray = false
  ignored : (s.cell e.target).ignored = false
  spells : Spells e.number e.line

variable {e : Entry}

theorem Legible.run_writeIn (h : e.Legible s) (hinput : FirstLine e.line s.input rest) :
    s.run (Store.writeIn e.target) = Store.run { s with input := rest } (write e.target e.number) := by
  have hword : readWord? (trim e.line) = some e.number.toNat :=
    readWord?_eq_some_iff.mpr ⟨h.spells.numeral, Nat.le_of_lt_succ e.number.isLt⟩
  rw [run_writeIn_line h.scalar h.spells.inline hinput, hword, Option.elim_some, BitVec.ofNat_toNat, BitVec.setWidth_eq]

theorem Legible.run_writeIn_wide (h : e.Legible s) (hwide : ¬ e.target.Fits e.number)
    (hinput : FirstLine e.line s.input rest) :
    ∃ u, s.run (Store.writeIn e.target) = (.error (.tooWide e.target e.number), u) ∧ u.input = rest := by
  obtain ⟨u, hrun, huinput⟩ := run_write_wide (s := { s with input := rest }) h.scalar h.ignored hwide
  exact ⟨u, (h.run_writeIn hinput).trans hrun, huinput⟩

theorem serve_requests (h : e.Legible s) (hfits : e.target.Fits e.number) (hinput : FirstLine e.line s.input rest)
    (rs : List Request) :
    ∃ t, (serve s (e.requests ++ rs)).1.map (·.reply) = e.replies ++ (serve t rs).1.map (·.reply) ∧
      (serve s (e.requests ++ rs)).2 = (serve t rs).2 ∧ t.input = rest ∧
      ∀ w, (t.cell w).ignored = (s.cell w).ignored := by
  obtain ⟨t, hrun, hread, htinput, hignored⟩ :=
    run_write_fitting (s := { s with input := rest }) h.scalar h.ignored hfits
  have hwrite : s.run (Request.writeIn e.target).serve = (.ok .done, t) :=
    run_done_ok ((h.run_writeIn hinput).trans hrun)
  have hlook : t.run (Request.read e.target).serve = (.ok (.number e.number.toNat), t) :=
    run_ask_ok hread _
  refine ⟨t, ?_, ?_, htinput, hignored⟩
  · rw [requests, List.cons_append, List.cons_append, List.nil_append, serve_cons, hwrite, serve_cons, hlook]
    rfl
  · rw [requests, List.cons_append, List.cons_append, List.nil_append, serve_cons, hwrite, serve_cons, hlook]

end Entry

/-- As long as the numbers have room, they are read one to a line. -/
theorem serve_entries {entries : List Entry} {closed : Bool} {lines : List (List Char)}
    (hentries : ∀ e ∈ entries, e.Legible s) (hfits : ∀ e ∈ entries, e.target.Fits e.number)
    (hinput : s.input = sheet closed (entries.map (·.line) ++ lines)) :
    (serve s (entries.flatMap (·.requests))).1.map (·.reply) = entries.flatMap (·.replies) ∧
      (serve s (entries.flatMap (·.requests))).2.input = sheet closed lines ∧
      ∀ w, ((serve s (entries.flatMap (·.requests))).2.cell w).ignored = (s.cell w).ignored := by
  induction entries generalizing s with
  | nil => exact ⟨rfl, hinput, fun _ ↦ rfl⟩
  | cons e entries ih =>
    rw [List.forall_mem_cons] at hentries hfits
    have hfirst : FirstLine e.line s.input (sheet closed (entries.map (·.line) ++ lines)) := by
      rw [hinput]
      exact firstLine_sheet hentries.1.spells.ne_nil closed _
    obtain ⟨t, hreplies, hstore, htinput, hignored⟩ :=
      e.serve_requests hentries.1 hfits.1 hfirst (entries.flatMap (·.requests))
    have hrest : ∀ f ∈ entries, f.Legible t := fun f hf ↦
      ⟨(hentries.2 f hf).scalar, (hignored _).trans (hentries.2 f hf).ignored, (hentries.2 f hf).spells⟩
    obtain ⟨hreplies', hinput', hignored'⟩ := ih hrest hfits.2 htinput
    rw [List.flatMap_cons, List.flatMap_cons, hreplies, hstore, hreplies', hinput']
    exact ⟨rfl, rfl, fun w ↦ (hignored' w).trans (hignored w)⟩

/-- What was written is itself a sheet to read from. -/
theorem serve_copies {copies : List (Variable × Word)}
    (hcopies : ∀ c ∈ copies, c.1.kind.isArray = false ∧ (t.cell c.1).ignored = false ∧ c.1.Fits c.2)
    (hinput : t.input = (serve s (copies.map fun c ↦ .readOut c.2)).1.flatMap (·.written)) :
    (serve t (copies.flatMap fun c ↦ [.writeIn c.1, .read c.1])).1.map (·.reply) =
        copies.flatMap (fun c ↦ [.ok .done, .ok (.number c.2.toNat)]) ∧
      (serve t (copies.flatMap fun c ↦ [.writeIn c.1, .read c.1])).2.input = [] := by
  let copy (c : Variable × Word) : Entry := ⟨c.1, c.2, decimal c.2⟩
  have hlegible : ∀ e ∈ copies.map copy, e.Legible t := by
    intro e he
    obtain ⟨c, hc, rfl⟩ := List.mem_map.mp he
    exact ⟨(hcopies c hc).1, (hcopies c hc).2.1, spells_decimal c.2⟩
  have hfits : ∀ e ∈ copies.map copy, e.target.Fits e.number := by
    intro e he
    obtain ⟨c, hc, rfl⟩ := List.mem_map.mp he
    exact (hcopies c hc).2.2
  have hwritten := written_readOuts s (copies.map Prod.snd)
  rw [List.map_map, List.map_map] at hwritten
  have hsheet : t.input = sheet true ((copies.map copy).map (·.line) ++ []) := by
    rw [List.append_nil, List.map_map]
    exact hinput.trans hwritten
  obtain ⟨hreplies, hrest, -⟩ := serve_entries hlegible hfits hsheet
  rw [List.flatMap_map] at hreplies hrest
  rw [List.flatMap_map] at hreplies
  exact ⟨hreplies, hrest⟩

theorem run_writeIn_nothing (hv : v.kind.isArray = false) (hinput : s.input = []) :
    s.run (writeIn v) = (.error .endOfInput, s) := by
  have hread : s.run readLine = (.error .endOfInput, s) := by
    simp only [run, readLine, hinput]
  rw [writeIn, hv, if_neg Bool.false_ne_true, run_bind_error hread]

/-- Numbers that are written are read again, one to a line, and so are other spellings of them, until the input is used
up or a number has no room. A line that spells no number up to the greatest word is used up as well, and nothing else is
changed. -/
theorem numbers_read_back :
    (∀ (s : Store) (xs : List Word),
      (serve s (xs.map .readOut)).1.flatMap (·.written) = sheet true (xs.map decimal) ∧
        ∀ x ∈ xs, Spells x (decimal x)) ∧
    (∀ (s t : Store) (copies : List (Variable × Word)),
      (∀ c ∈ copies, c.1.kind.isArray = false ∧ (t.cell c.1).ignored = false ∧ c.1.Fits c.2) →
      t.input = (serve s (copies.map fun c ↦ .readOut c.2)).1.flatMap (·.written) →
      ∃ served u, serve t (copies.flatMap fun c ↦ [.writeIn c.1, .read c.1]) = (served, u) ∧
        served.map (·.reply) = copies.flatMap (fun c ↦ [.ok .done, .ok (.number c.2.toNat)]) ∧ u.input = []) ∧
    (∀ (s : Store) (closed : Bool) (entries : List Entry), (∀ e ∈ entries, e.Legible s) →
      (∀ e ∈ entries, e.target.Fits e.number) → s.input = sheet closed (entries.map (·.line)) →
      ∃ served t, serve s (entries.flatMap (·.requests)) = (served, t) ∧
        served.map (·.reply) = entries.flatMap (·.replies) ∧ t.input = [] ∧
        ∀ v, v.kind.isArray = false → t.run (writeIn v) = (.error .endOfInput, t)) ∧
    (∀ (s : Store) (closed : Bool) (entries : List Entry) (e : Entry) (lines : List (List Char)),
      (∀ f ∈ entries, f.Legible s) → (∀ f ∈ entries, f.target.Fits f.number) → e.Legible s →
      ¬ e.target.Fits e.number → s.input = sheet closed (entries.map (·.line) ++ e.line :: lines) →
      ∃ served t u, serve s (entries.flatMap (·.requests)) = (served, t) ∧
        served.map (·.reply) = entries.flatMap (·.replies) ∧
        t.run (writeIn e.target) = (.error (.tooWide e.target e.number), u) ∧ u.input = sheet closed lines) ∧
    (∀ (s : Store) (v : Variable) (line : List Char) (rest : List UInt8), v.kind.isArray = false → '\n' ∉ line →
      FirstLine line s.input rest → (¬ ∃ n, Numeral (trim line) n ∧ n ≤ 4294967295) →
      s.run (writeIn v) = (.error (.notNumber (String.ofList (trim line))), { s with input := rest })) ∧
    Fault.endOfInput.code = .e562 ∧ (∀ v x, (Fault.tooWide v x).code = .e275) ∧
      ∀ text, (Fault.notNumber text).code = .e579 := by
  refine ⟨fun s xs ↦ ⟨written_readOuts s xs, fun x _ ↦ spells_decimal x⟩, ?_, ?_, ?_, ?_, rfl, fun _ _ ↦ rfl,
    fun _ ↦ rfl⟩
  · intro s t copies hcopies hinput
    obtain ⟨hreplies, hrest⟩ := serve_copies hcopies hinput
    exact ⟨_, _, rfl, hreplies, hrest⟩
  · intro s closed entries hentries hfits hinput
    rw [← List.append_nil (entries.map (·.line))] at hinput
    obtain ⟨hreplies, hrest, -⟩ := serve_entries hentries hfits hinput
    rw [sheet_nil] at hrest
    exact ⟨_, _, rfl, hreplies, hrest, fun v hv ↦ run_writeIn_nothing hv hrest⟩
  · intro s closed entries e lines hentries hfits he hwide hinput
    obtain ⟨hreplies, hrest, hignored⟩ := serve_entries hentries hfits hinput
    have hlegible : e.Legible (serve s (entries.flatMap (·.requests))).2 :=
      ⟨he.scalar, (hignored _).trans he.ignored, he.spells⟩
    have hfirst := firstLine_sheet he.spells.ne_nil closed lines
    rw [← hrest] at hfirst
    obtain ⟨u, hrun, huinput⟩ := hlegible.run_writeIn_wide hwide hfirst
    exact ⟨_, _, u, rfl, hreplies, hrun, huinput⟩
  · intro s v line rest hv hline hfirst hnone
    have hword : readWord? (trim line) = none := by
      rw [Option.eq_none_iff_forall_ne_some]
      intro n hn
      exact hnone ⟨n, readWord?_eq_some_iff.mp hn⟩
    rw [run_writeIn_line hv hline hfirst, hword]
    rfl

def ledger : List Entry :=
  [⟨.twoSpot 1, 7, [' ', '7', '\u3000']⟩, ⟨.spot 2, 65535, ['+', '0', '0', '6', '5', '5', '3', '5']⟩,
    ⟨.twoSpot 3, 70000, ['7', '0', '0', '0', '0', '\t']⟩]

theorem legible_ledger (input : List UInt8) : ∀ e ∈ ledger, e.Legible { input } := by
  refine List.forall_mem_cons.mpr ⟨⟨rfl, rfl, ?_⟩, List.forall_mem_cons.mpr ⟨⟨rfl, rfl, ?_⟩,
    List.forall_mem_singleton.mpr ⟨rfl, rfl, ?_⟩⟩⟩
  · exact ⟨[' '], [], [], ['\u3000'], by decide +kernel,
      List.forall_mem_cons.mpr ⟨by decide, List.forall_mem_singleton.mpr (by decide)⟩, .inl rfl, nofun⟩
  · exact ⟨[], ['+'], ['0', '0'], [], by decide +kernel, nofun, .inr rfl,
      List.forall_mem_cons.mpr ⟨rfl, List.forall_mem_singleton.mpr rfl⟩⟩
  · exact ⟨[], [], [], ['\t'], by decide +kernel, List.forall_mem_singleton.mpr (by decide), .inl rfl, nofun⟩

theorem numbers_read_back_ledger :
    let s : Store := { input := sheet false (ledger.map (·.line)) }
    let wide : Entry := ⟨.spot 3, 70000, ['7', '0', '0', '0', '0', '\t']⟩
    let copied : Store := { input := (serve s [.readOut 7, .readOut 70000]).1.flatMap (·.written) }
    (∃ served t, serve copied [.writeIn (.spot 1), .read (.spot 1), .writeIn (.twoSpot 1), .read (.twoSpot 1)] =
      (served, t) ∧ served.map (·.reply) = [.ok .done, .ok (.number 7), .ok .done, .ok (.number 70000)] ∧
      t.input = []) ∧
    (∃ served t, serve s (ledger.flatMap (·.requests)) = (served, t) ∧
      served.map (·.reply) = ledger.flatMap (·.replies) ∧ t.run (writeIn (.spot 9)) = (.error .endOfInput, t)) ∧
    (∃ served t u, serve s ((ledger.take 2).flatMap (·.requests)) = (served, t) ∧
      served.map (·.reply) = (ledger.take 2).flatMap (·.replies) ∧
      t.run (writeIn wide.target) = (.error (.tooWide (.spot 3) 70000), u) ∧ u.input = []) ∧
    Store.run { input := [49, 50, 97, 10, 57] } (writeIn (.spot 1)) =
      (.error (.notNumber "12a"), { input := [57] }) := by
  intro s wide copied
  have hledger := legible_ledger s.input
  have hfits : ∀ e ∈ ledger, e.target.Fits e.number :=
    List.forall_mem_cons.mpr ⟨nofun, List.forall_mem_cons.mpr ⟨fun _ ↦ Nat.le_refl _,
      List.forall_mem_singleton.mpr nofun⟩⟩
  have hspots (P : Entry → Prop) (h : ∀ e ∈ ledger, P e) : ∀ e ∈ ledger.take 2, P e :=
    fun e he ↦ h e (List.mem_of_mem_take he)
  have hwide : wide.Legible s := ⟨rfl, rfl, (hledger _ (List.mem_of_getElem? (i := 2) rfl)).spells⟩
  have hline : FirstLine ['1', '2', 'a'] [49, 50, 97, 10, 57] [57] := .ended [57]
  have hnone : ¬ ∃ n, Numeral (trim ['1', '2', 'a']) n ∧ n ≤ 4294967295 := by
    rintro ⟨n, hn⟩
    have hword := readWord?_eq_some_iff.mpr hn
    have hread : readWord? (trim ['1', '2', 'a']) = none := by decide +kernel
    rw [hread] at hword
    cases hword
  have hcopies : ∀ c ∈ [(Variable.spot 1, (7 : Word)), (Variable.twoSpot 1, 70000)],
      c.1.kind.isArray = false ∧ (copied.cell c.1).ignored = false ∧ c.1.Fits c.2 :=
    List.forall_mem_cons.mpr ⟨⟨rfl, rfl, fun _ ↦ by decide⟩, List.forall_mem_singleton.mpr ⟨rfl, rfl, nofun⟩⟩
  obtain ⟨-, hback, hall, hfirst, hrefused, -⟩ := numbers_read_back
  refine ⟨?_, ?_, ?_, ?_⟩
  · exact hback s copied _ hcopies rfl
  · obtain ⟨served, t, hserve, hreplies, -, hend⟩ := hall s false ledger hledger hfits rfl
    exact ⟨served, t, hserve, hreplies, hend (.spot 9) rfl⟩
  · exact hfirst s false (ledger.take 2) wide [] (hspots _ hledger) (hspots _ hfits) hwide
      (fun h ↦ absurd (h rfl) (by decide)) rfl
  · exact hrefused { input := [49, 50, 97, 10, 57] } (.spot 1) _ _ rfl (by decide) hline hnone

end Store

end Intercal
