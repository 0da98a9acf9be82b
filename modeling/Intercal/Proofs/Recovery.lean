import Intercal.Proofs.Listing
import Intercal.Proofs.Starts

namespace Intercal

open Token Statement

def Token.label? (t : Token) : Option Nat :=
  match t.kind with
  | .label n => some n
  | _ => none

namespace Reader

variable {α β : Type}

def Yields (Q : α → Prop) (x : Reader α) : Prop := ∀ ts a, (x ts).1 = some a → Q a

namespace Yields

variable {Q : β → Prop} {x : Reader α} {f : α → Reader β}

theorem pure {b : β} (hb : Q b) : Yields Q (pure b) := by
  intro ts a h
  cases h
  exact hb

theorem fail : Yields Q fail := fun _ _ h ↦ nomatch h

theorem bind (hf : ∀ a, Yields Q (f a)) : Yields Q (x >>= f) := by
  intro ts b h
  rw [bind_eq] at h
  split at h
  · exact hf _ _ b h
  · cases h

end Yields

end Reader

namespace Statement

open Reader

theorem readQualifiers_suffix (identified : Bool) (h : Header) (ts : List Token) :
    (readQualifiers identified h ts).2.2 <:+ ts := by
  fun_induction readQualifiers identified h ts with
  | case1 | case5 | case6 | case10 | case11 => exact List.suffix_rfl
  | case2 _ _ _ _ _ ih | case3 _ _ _ _ _ _ ih | case4 _ _ _ _ _ _ _ _ _ ih => exact ih.trans (List.suffix_cons _ _)
  | case7 _ _ _ _ _ _ _ ih => exact (ih.trans (List.suffix_cons _ _)).trans (List.suffix_cons _ _)
  | case8 | case9 => exact List.suffix_cons _ _

theorem label_readQualifiers (identified : Bool) (h : Header) (ts : List Token) :
    (readQualifiers identified h ts).1.label = h.label := by
  fun_induction readQualifiers identified h ts <;> trivial

theorem readQualifiers_progress {identified : Bool} {h : Header} {ts : List Token} (hnot : identified = false)
    (hidentified : (readQualifiers identified h ts).2.1 = true) :
    (readQualifiers identified h ts).2.2.length < ts.length := by
  fun_induction readQualifiers identified h ts with
  | case2 | case3 => exact Nat.lt_succ_of_le (readQualifiers_suffix _ _ _).length_le
  | case4 _ _ _ _ _ _ _ _ hword =>
    rw [hnot] at hword
    cases hword
  | case1 | case6 | case10 | case11 =>
    rw [hnot] at hidentified
    cases hidentified
  | case5 => cases hidentified
  | case7 | case8 | case9 => cases hnot

theorem readHeader_suffix (ts : List Token) : (readHeader ts).2.2 <:+ ts := by
  unfold readHeader
  split
  · exact (readQualifiers_suffix _ _ _).trans (List.suffix_cons _ _)
  · exact readQualifiers_suffix _ _ _

theorem label_readHeader (t : Token) (ts : List Token) : (readHeader (t :: ts)).1.label = t.label? := by
  obtain ⟨k, p⟩ := t
  cases k <;> exact label_readQualifiers _ _ _

theorem readHeader_progress {ts after : List Token} {header : Header} (h : readHeader ts = (header, true, after)) :
    after.length < ts.length := by
  have hidentified : (readHeader ts).2.1 = true := by rw [h]
  have hafter : after = (readHeader ts).2.2 := by rw [h]
  rw [hafter]
  unfold readHeader at hidentified ⊢
  split at hidentified
  · exact Nat.lt_succ_of_lt (readQualifiers_progress rfl hidentified)
  · exact readQualifiers_progress rfl hidentified

theorem skipToStart_of_boundary {ts : List Token} (h : (ts.isEmpty || starts ts) = true) : skipToStart ts = ts := by
  cases ts with
  | nil => rfl
  | cons t ts => exact if_pos h

/-- After a header, reading goes on at the first start behind the place where the body gave up. -/
theorem readStatement_rest {ts after : List Token} {header : Header} (h : readHeader ts = (header, true, after)) :
    (readStatement ts).2.2 = skipToStart (readBody after).2 := by
  have hlength : (readBody after).2.length < ts.length :=
    Nat.lt_of_le_of_lt (readBody_minds after).trips.suffix.length_le (readHeader_progress h)
  unfold readStatement
  rw [h]
  dsimp only
  rw [if_pos rfl]
  rcases hbody : readBody after with ⟨_ | b, stopped⟩
  · rw [hbody] at hlength
    dsimp only at hlength ⊢
    rw [if_neg (Nat.ne_of_lt hlength)]
  · dsimp only
    split
    · next hboundary => exact (skipToStart_of_boundary hboundary).symm
    · rfl

theorem readStatement_suffix (t : Token) (ts : List Token) : (readStatement (t :: ts)).2.2 <:+ ts := by
  have hskip {us : List Token} (hus : us <:+ t :: ts) (hne : us.length ≠ (t :: ts).length) : skipToStart us <:+ ts := by
    rcases List.suffix_cons_iff.mp hus with rfl | hus
    · exact absurd rfl hne
    · exact (skipToStart_firstStart us).suffix.trans hus
  rcases hheader : readHeader (t :: ts) with ⟨header, identified, after⟩
  have hafter : after <:+ t :: ts := by simpa only [hheader] using readHeader_suffix (t :: ts)
  cases identified with
  | true =>
    have hstopped := (readBody_minds after).trips.suffix
    rw [readStatement_rest hheader]
    exact hskip (hstopped.trans hafter)
      (Nat.ne_of_lt (Nat.lt_of_le_of_lt hstopped.length_le (readHeader_progress hheader)))
  | false =>
    unfold readStatement
    rw [hheader]
    dsimp only
    rw [if_neg Bool.false_ne_true]
    dsimp only
    split
    · exact (skipToStart_firstStart ts).suffix
    · next hne => exact hskip hafter hne

def unread : Nat → List Token → List Token
  | 0, ts => ts
  | k + 1, ts => unread k (readStatement ts).2.2

theorem unread_succ (k : Nat) (ts : List Token) : unread (k + 1) ts = (readStatement (unread k ts)).2.2 := by
  induction k generalizing ts with
  | zero => rfl
  | succ k ih => exact ih _

theorem unread_nil (k : Nat) : unread k [] = [] := by
  induction k with
  | zero => rfl
  | succ k ih => exact ih

/-- What is known of the statement that the tokens begin with: where it stands, its header and its body. -/
def Begins : List Token → Option Statement → Prop
  | [], st? => st? = none
  | t :: ts, st? => ∃ st, st? = some st ∧ st.position = t.position ∧ st.header = (readStatement (t :: ts)).1 ∧
      st.body = (readStatement (t :: ts)).2.1

theorem begins_readAll (stop index : Nat) (source : List Char) (ts : List Token) (k : Nat) :
    Begins (unread k ts) (readAll stop 0 index source ts)[k]? := by
  induction k generalizing index source ts with
  | zero =>
    cases ts with
    | nil => rfl
    | cons t ts =>
      rcases hread : readStatement (t :: ts) with ⟨header, body, rest⟩
      rw [readAll_cons hread rfl]
      exact ⟨_, rfl, rfl, by rw [hread], by rw [hread]⟩
  | succ k ih =>
    cases ts with
    | nil =>
      rw [unread_nil]
      rfl
    | cons t ts =>
      obtain ⟨front, hfront⟩ := readStatement_suffix t ts
      rcases hread : readStatement (t :: ts) with ⟨header, body, rest⟩
      rw [hread] at hfront
      have hcovered : ts.length - rest.length = front.length := by
        rw [← hfront, List.length_append, Nat.add_sub_cancel]
      rw [readAll_cons hread rfl, List.getElem?_cons_succ, hcovered, unread, hread, ← hfront, readAll_covered]
      exact ih _ _ rest

theorem begins_parse (source : List Char) (k : Nat) : Begins (unread k (tokenize source).1) (parse source)[k]? :=
  begins_readAll _ 0 _ _ k

theorem readVerb_yields (verb : String) : Yields (· ≠ .malformed) (readVerb verb) := by
  unfold readVerb
  split
  case h_12 =>
    refine .bind fun _ ↦ .bind fun k ↦ ?_
    split
    · exact .pure nofun
    · exact .fail
  case h_13 => exact .fail
  all_goals
    repeat' first
      | exact .pure nofun
      | refine .bind fun _ ↦ ?_

theorem readBody_yields : Yields (· ≠ .malformed) readBody := by
  refine .bind fun k ↦ ?_
  split
  · exact .bind fun _ ↦ .bind fun _ ↦ .pure nofun
  · split
    · exact .bind fun _ ↦ .pure nofun
    · exact .fail
  · exact .bind fun _ ↦ readVerb_yields _
  · exact .fail

theorem header_readStatement (ts : List Token) : (readStatement ts).1 = (readHeader ts).1 := by
  unfold readStatement
  dsimp only
  generalize (if (readHeader ts).2.1 = true then readBody (readHeader ts).2.2 else (none, (readHeader ts).2.2)) = r
  split
  · split <;> rfl
  · rfl

/-- A statement is malformed because its body cannot be read, or because something else follows it. -/
theorem readBody_of_malformed {ts after : List Token} {header : Header} (h : readHeader ts = (header, true, after))
    (hmalformed : (readStatement ts).2.1 = .malformed) :
    (readBody after).1 = none ∨ starts (readBody after).2 = false := by
  unfold readStatement at hmalformed
  rw [h] at hmalformed
  dsimp only at hmalformed
  rw [if_pos rfl] at hmalformed
  rcases hbody : readBody after with ⟨_ | b, stopped⟩
  · exact .inl rfl
  · rw [hbody] at hmalformed
    dsimp only at hmalformed
    split at hmalformed
    · exact absurd hmalformed (readBody_yields after b (by rw [hbody]))
    · next hboundary =>
      rw [Bool.or_eq_true, not_or] at hboundary
      exact .inr (Bool.eq_false_iff.mpr hboundary.2)

/-- The last token that the body takes starts a statement. -/
def Swallows (after : List Token) : Prop :=
  ∃ t, t :: (readBody after).2 <:+ after ∧ starts (t :: (readBody after).2) = true

theorem firstStart_iff (after : List Token) :
    FirstStart after (skipToStart (readBody after).2) ↔ ¬ Swallows after := by
  have htrips := (readBody_minds after).trips
  have hskip := skipToStart_firstStart (readBody after).2
  constructor
  · rintro h ⟨t, hsuffix, hstarts⟩
    have hlength := ((h.ahead hsuffix hstarts).trans hskip.suffix).length_le
    exact Nat.not_succ_le_self _ hlength
  · intro h
    refine ⟨⟨hskip.suffix.trans htrips.suffix, fun hus hstarts ↦ ?_⟩, hskip.boundary⟩
    rcases htrips.ahead hus hstarts with hus' | ⟨t, rfl⟩
    · exact hskip.ahead hus' hstarts
    · exact absurd ⟨t, hus, hstarts⟩ h

theorem place_and_label (source : List Char) (k : Nat) :
    (parse source)[k]?.map (fun st ↦ (st.position, st.header.label)) =
      (unread k (tokenize source).1).head?.map fun t ↦ (t.position, t.label?) := by
  have hbegins := begins_parse source k
  cases hunread : unread k (tokenize source).1 with
  | nil =>
    rw [hunread] at hbegins
    rw [hbegins]
    rfl
  | cons t ts =>
    rw [hunread] at hbegins
    obtain ⟨st, hst, hposition, hheader, -⟩ := hbegins
    rw [hst, Option.map_some, List.head?_cons, Option.map_some, hposition, hheader, header_readStatement,
      label_readHeader]

/-- After a malformed statement with a proper header, reading goes on at the first start of a statement behind the place
where the body gave up. That is the first one behind the header just if the body did not take a start with its last
token, which it does only if it cannot be read. -/
theorem malformed_next {source : List Char} {k : Nat} {st : Statement} {header : Header} {after : List Token}
    (hst : (parse source)[k]? = some st) (hmalformed : st.body = .malformed)
    (hheader : readHeader (unread k (tokenize source).1) = (header, true, after)) :
    st.header = header ∧ ∃ next,
      (parse source)[k + 1]?.map (fun st ↦ (st.position, st.header.label)) =
        next.head?.map (fun t ↦ (t.position, t.label?)) ∧
      FirstStart (readBody after).2 next ∧ (FirstStart after next ↔ ¬ Swallows after) ∧
      (Swallows after → (readBody after).1 = none) := by
  have hnext := place_and_label source (k + 1)
  have hbegins := begins_parse source k
  rw [unread_succ, readStatement_rest hheader] at hnext
  rw [hst] at hbegins
  cases hunread : unread k (tokenize source).1 with
  | nil =>
    rw [hunread] at hbegins
    cases hbegins
  | cons t ts =>
    rw [hunread] at hbegins hheader
    obtain ⟨st', hst', -, hstheader, hbody⟩ := hbegins
    cases hst'
    have hsame : st.header = header := by rw [hstheader, header_readStatement, hheader]
    refine ⟨hsame, _, hnext, skipToStart_firstStart _, firstStart_iff after, ?_⟩
    rintro ⟨u, hsuffix, hstarts⟩
    rcases readBody_of_malformed hheader (hbody ▸ hmalformed) with hnone | hstopped
    · exact hnone
    · cases hread : (readBody after).1 with
      | none => rfl
      | some b =>
        have hpasses := (readBody_minds after).passes (by rw [hread]; rfl) hstopped
        exact absurd (hpasses.ahead hsuffix hstarts).length_le (Nat.not_succ_le_self _)

def moon : List Char := "DO FLY TO THE MOON (5) DO GIVE UP".toList

theorem malformed_next_moon :
    ∃ next, (parse moon)[1]?.map (fun st ↦ (st.position, st.header.label)) =
        next.head?.map (fun t ↦ (t.position, t.label?)) ∧
      FirstStart (readHeader (tokenize moon).1).2.2 next := by
  have hmalformed : (parse moon)[0]?.any (·.body.isMalformed) = true := by decide +kernel
  have hidentified : (readHeader (tokenize moon).1).2.1 = true := by decide +kernel
  have hlength : (readBody (readHeader (tokenize moon).1).2.2).2.length + 1 =
      (readHeader (tokenize moon).1).2.2.length := by decide +kernel
  have hstarts : starts (readHeader (tokenize moon).1).2.2 = false := by decide +kernel
  cases hst : (parse moon)[0]? with
  | none =>
    rw [hst] at hmalformed
    cases hmalformed
  | some st =>
    rw [hst] at hmalformed
    have hbody : st.body = .malformed := by
      cases hbody : st.body with
      | malformed => rfl
      | _ =>
        rw [Option.any_some, hbody] at hmalformed
        cases hmalformed
    rcases hheader : readHeader (tokenize moon).1 with ⟨header, identified, after⟩
    rw [hheader] at hidentified hlength hstarts
    subst hidentified
    obtain ⟨-, next, hnext, -, hfirst, -⟩ := malformed_next hst hbody hheader
    refine ⟨next, hnext, hfirst.mpr ?_⟩
    rintro ⟨t, hsuffix, hstart⟩
    rw [hsuffix.eq_of_length hlength, hstarts] at hstart
    cases hstart

/-- Where an operand is missing the next statement is lost, and where the body is no more than a label, the next
statement loses its own. -/
theorem swallowed_start :
    (parse "DO RESUME DO GIVE UP".toList).map (·.body.isMalformed) = [true] ∧
      (parse "DO (10) DO GIVE UP".toList).map (fun st ↦ (st.body.isMalformed, st.header.label)) =
        [(true, none), (false, none)] := by
  decide +kernel

end Statement

end Intercal
