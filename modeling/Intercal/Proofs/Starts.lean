import Intercal.Proofs.Phrases

namespace Intercal

open Token Statement

namespace Statement

variable {ts us rest next : List Token} {t : Token}

structure Passes (ts rest : List Token) : Prop where
  suffix : rest <:+ ts
  ahead {us : List Token} : us <:+ ts → starts us = true → us <:+ rest

/-- On the way from the first tokens to the others no statement starts, unless with the very last token. -/
structure Trips (ts rest : List Token) : Prop where
  suffix : rest <:+ ts
  ahead {us : List Token} : us <:+ ts → starts us = true → us <:+ rest ∨ ∃ t, us = t :: rest

/-- The tokens from the first start of a statement on, or none if there is no start. -/
structure FirstStart (ts next : List Token) : Prop extends Passes ts next where
  boundary : next = [] ∨ starts next = true

namespace Passes

theorem refl (ts : List Token) : Passes ts ts := ⟨List.suffix_rfl, fun h _ ↦ h⟩

theorem trans (h : Passes ts us) (h' : Passes us rest) : Passes ts rest :=
  ⟨h'.suffix.trans h.suffix, fun hvs hstarts ↦ h'.ahead (h.ahead hvs hstarts) hstarts⟩

theorem trips (h : Passes ts rest) : Trips ts rest := ⟨h.suffix, fun hus hstarts ↦ .inl (h.ahead hus hstarts)⟩

theorem trans_trips (h : Passes ts us) (h' : Trips us rest) : Trips ts rest :=
  ⟨h'.suffix.trans h.suffix, fun hvs hstarts ↦ h'.ahead (h.ahead hvs hstarts) hstarts⟩

theorem cons (h : starts (t :: ts) = false) : Passes (t :: ts) ts := by
  refine ⟨List.suffix_cons t ts, fun hus hstarts ↦ ?_⟩
  rcases List.suffix_cons_iff.mp hus with rfl | hus
  · rw [h] at hstarts
    cases hstarts
  · exact hus

end Passes

theorem Trips.cons (t : Token) (ts : List Token) : Trips (t :: ts) ts := by
  refine ⟨List.suffix_cons t ts, fun hus _ ↦ ?_⟩
  rcases List.suffix_cons_iff.mp hus with rfl | hus
  · exact .inr ⟨t, rfl⟩
  · exact .inl hus

theorem skipToStart_firstStart (ts : List Token) : FirstStart ts (skipToStart ts) := by
  induction ts with
  | nil => exact ⟨.refl [], .inl rfl⟩
  | cons t ts ih =>
    unfold skipToStart
    split
    · next hstarts => exact ⟨.refl _, .inr hstarts⟩
    · next hstarts => exact ⟨(Passes.cons (Bool.eq_false_iff.mpr hstarts)).trans ih.toPasses, ih.boundary⟩

def plain : Kind → Bool
  | .word w => w != "DO" && w != "PLEASE"
  | .label _ => false
  | _ => true

theorem starts_of_opens (h : opens t = true) (ts : List Token) : starts (t :: ts) = true := by
  obtain ⟨k, p⟩ := t
  cases k with
  | label n => cases h
  | _ => exact h

theorem starts_label {n : Nat} {p : Position} (h : starts ts = false) : starts (⟨.label n, p⟩ :: ts) = false := by
  cases ts with
  | nil => rfl
  | cons t ts =>
    rw [← Bool.not_eq_true] at h ⊢
    exact fun hopens ↦ h (starts_of_opens hopens ts)

theorem starts_of_plain (h : plain t.kind = true) (ts : List Token) : starts (t :: ts) = false := by
  obtain ⟨k, p⟩ := t
  cases k with
  | word w =>
    simp only [plain, Bool.and_eq_true, bne_iff_ne] at h
    simp [starts, opens, isWord, h]
  | label n => cases h
  | _ => rfl

end Statement

namespace Reader

variable {α β : Type} {P : List Token → Prop} {x : Reader α} {f : α → Reader β} {ts us : List Token} {t : Token}

/-- The reader takes no token with which a statement starts, except with its last token if it fails or if what it leaves
does not have the property. -/
structure Minds (P : List Token → Prop) (x : Reader α) (ts : List Token) : Prop where
  trips : Trips ts (x ts).2
  passes : (x ts).1.isSome = true → P (x ts).2 → Passes ts (x ts).2

def Tame (x : Reader α) : Prop := ∀ ts, x.Minds (fun _ ↦ True) ts

namespace Minds

theorem stay (h : (x ts).2 = ts) : x.Minds P ts := by
  refine ⟨?_, fun _ _ ↦ ?_⟩ <;> rw [h]
  · exact (Passes.refl ts).trips
  · exact .refl ts

theorem giveUp (h : x ts = (none, us)) (htrips : Trips ts us) : x.Minds P ts := by
  refine ⟨by rwa [h], fun hsome ↦ ?_⟩
  rw [h] at hsome
  cases hsome

theorem goOn {y : Reader α} (hy : y.Minds P us) (h : x ts = y us) (hpasses : Passes ts us) : x.Minds P ts := by
  refine ⟨by rw [h]; exact hpasses.trans_trips hy.trips, ?_⟩
  rw [h]
  exact fun hsome hP ↦ hpasses.trans (hy.passes hsome hP)

theorem bind (hx : x.Minds (fun _ ↦ True) ts) (hf : ∀ a, (x ts).1 = some a → (f a).Minds P (x ts).2) :
    (x >>= f).Minds P ts := by
  have htrips := hx.trips
  have hpasses := hx.passes
  cases hread : x ts with
  | mk a? us =>
    rw [hread] at hf htrips hpasses
    cases a? with
    | none => exact giveUp (by rw [bind_eq, hread]) htrips
    | some a => exact (hf a rfl).goOn (by rw [bind_eq, hread]) (hpasses rfl trivial)

/-- The last token may start a statement if the reader fails with it, or if it is a label. -/
theorem last (a? : Option α) (h : x (t :: ts) = (a?, ts)) (ha : a?.isSome = true → opens t = false) :
    x.Minds (starts · = false) (t :: ts) := by
  refine ⟨by rw [h]; exact .cons t ts, ?_⟩
  rw [h]
  intro hsome hrest
  refine .cons ?_
  obtain ⟨k, p⟩ := t
  cases k with
  | label n => exact starts_label hrest
  | _ => exact ha hsome

theorem map (hx : x.Minds P ts) (g : α → β) : (x >>= fun a ↦ pure (g a)).Minds P ts := by
  obtain ⟨htrips, hpasses⟩ := hx
  have hbind : (x >>= fun a ↦ pure (g a)) ts = ((x ts).1.map g, (x ts).2) := by
    rw [bind_eq]
    rcases x ts with ⟨_ | a, us⟩ <;> rfl
  refine ⟨by rw [hbind]; exact htrips, ?_⟩
  rw [hbind, Option.isSome_map]
  exact hpasses

end Minds

namespace Tame

theorem minds (hx : x.Tame) (ts : List Token) : x.Minds P ts :=
  ⟨(hx ts).trips, fun hsome _ ↦ (hx ts).passes hsome trivial⟩

theorem pure (a : α) : (pure a : Reader α).Tame := fun _ ↦ .stay rfl

theorem fail : (fail : Reader α).Tame := fun _ ↦ .stay rfl

theorem peek : peek.Tame := fun _ ↦ .stay rfl

theorem ofOption (a? : Option α) : (ofOption a?).Tame := by
  cases a? with
  | none => exact fail
  | some a => exact pure a

theorem bind (hx : x.Tame) (hf : ∀ a, (f a).Tame) : (x >>= f).Tame := fun ts ↦ (hx ts).bind fun a _ ↦ hf a _

theorem bounded {g : Nat → Reader α} (hg : ∀ n, (g n).Tame) (bound : List Token → Nat) :
    Tame fun ts ↦ g (bound ts) ts :=
  fun ts ↦ (hg (bound ts) ts).goOn rfl (.refl ts)

theorem ite {y : Reader α} {p : Prop} [Decidable p] (hx : x.Tame) (hy : y.Tame) : (if p then x else y).Tame := by
  split
  · exact hx
  · exact hy

/-- A token that does not fit may be taken, but then the reader fails. -/
theorem take_bind {f : Kind → Reader β} (hword : ∀ w, f (.word w) = Reader.fail)
    (hlabel : ∀ n, f (.label n) = Reader.fail) (hf : ∀ k, (f k).Tame) : (take >>= f).Tame := by
  intro ts
  cases ts with
  | nil => exact .stay rfl
  | cons t ts =>
    have hbind : (take >>= f) (t :: ts) = f t.kind ts := rfl
    cases hplain : plain t.kind with
    | true => exact (hf t.kind ts).goOn hbind (.cons (starts_of_plain hplain ts))
    | false =>
      have hfail : f t.kind = Reader.fail := by
        cases hkind : t.kind with
        | word w => exact hword w
        | label n => exact hlabel n
        | _ =>
          rw [hkind] at hplain
          cases hplain
      rw [hfail] at hbind
      exact .giveUp hbind (.cons t ts)

theorem takeIf {k : Kind} (hk : plain k = true) : (takeIf k).Tame := by
  intro ts
  cases ts with
  | nil => exact .stay rfl
  | cons t ts =>
    by_cases h : t.kind = k
    · exact (pure true ts).goOn (if_pos h) (.cons (starts_of_plain (h ▸ hk) ts))
    · exact .stay (congrArg Prod.snd (if_neg h))

theorem expect {k : Kind} (hk : plain k = true) : (expect k).Tame :=
  (takeIf hk).bind fun _ ↦ .ite (pure ()) fail

theorem separated {sep : Kind} (hsep : plain sep = true) (hx : x.Tame) : (separated sep x).Tame := by
  have hmore (n : Nat) : (moreItems sep x n).Tame := by
    induction n with
    | zero => exact pure []
    | succ n ih => exact (takeIf hsep).bind fun _ ↦ .ite (hx.bind fun a ↦ ih.bind fun as ↦ pure (a :: as)) (pure [])
  exact hx.bind fun a ↦ (bounded hmore List.length).bind fun as ↦ pure (a :: as)

end Tame

end Reader

namespace Expr

open Reader

theorem readNumber_tame : readNumber.Tame := by
  refine .take_bind (fun _ ↦ rfl) (fun _ ↦ rfl) fun k ↦ ?_
  cases k with
  | number n => exact .ite (.pure n) .fail
  | _ => exact .fail

theorem readIndex_tame : readIndex.Tame := readNumber_tame.bind fun n ↦ .ite .fail (.pure n)

theorem readVariable_tame : readVariable.Tame := by
  refine .take_bind (fun _ ↦ rfl) (fun _ ↦ rfl) fun k ↦ ?_
  cases k with
  | punctuation c => exact (Tame.ofOption _).bind fun kind ↦ readIndex_tame.bind fun n ↦ .pure _
  | _ => exact .fail

theorem readUnary_tame : readUnary.Tame :=
  (Tame.takeIf rfl).bind fun _ ↦ .ite (.pure _) <| (Tame.takeIf rfl).bind fun _ ↦ .ite (.pure _) <|
    (Tame.takeIf rfl).bind fun _ ↦ .ite (.pure _) (.pure _)

structure TameTo (n : Nat) : Prop where
  expr (closer : Option Char) : (readExpr n closer).Tame
  operand (closer : Option Char) : (readOperand n closer).Tame
  group (quote : Char) : (readGroup n quote).Tame
  subscripts (closer : Option Char) : (readSubscripts n closer).Tame

theorem tameTo (n : Nat) : TameTo n := by
  induction n with
  | zero => exact ⟨fun _ ↦ .fail, fun _ ↦ .fail, fun _ ↦ .fail, fun _ ↦ .fail⟩
  | succ n ih =>
    refine ⟨fun closer ↦ ?_, fun closer ↦ ?_, fun quote ↦ ?_, fun closer ↦ ?_⟩
    · refine (ih.operand closer).bind fun left ↦ (Tame.takeIf rfl).bind fun _ ↦ .ite ?_ ?_
      · exact (ih.expr closer).bind fun right ↦ .pure _
      · exact (Tame.takeIf rfl).bind fun _ ↦ .ite ((ih.expr closer).bind fun right ↦ .pure _) (.pure left)
    · refine .take_bind (fun _ ↦ rfl) (fun _ ↦ rfl) fun k ↦ ?_
      split
      · exact readUnary_tame.bind fun op ↦ readNumber_tame.bind fun value ↦ .pure _
      · exact ih.group _
      · exact ih.group _
      · refine (Tame.ofOption _).bind fun kind ↦ readUnary_tame.bind fun op ↦ readIndex_tame.bind fun number ↦ ?_
        refine .ite (.pure _) ((Tame.takeIf rfl).bind fun _ ↦ .ite ?_ (.pure _))
        exact (ih.subscripts closer).bind fun subs ↦ .pure _
      · exact .fail
    · refine readUnary_tame.bind fun op ↦ (ih.expr _).bind fun inner ↦ ?_
      exact .take_bind (fun _ ↦ if_neg nofun) (fun _ ↦ if_neg nofun) fun k ↦ .ite (.pure _) .fail
    · refine (ih.expr closer).bind fun e ↦ Tame.peek.bind fun k? ↦ .ite ?_ (.pure _)
      exact (ih.subscripts closer).bind fun es ↦ .pure _

theorem read_tame : Expr.read.Tame := .bounded (fun n ↦ (tameTo n).expr none) depthFor

theorem readList_tame : readList.Tame := .bounded (fun n ↦ (tameTo n).subscripts none) depthFor

end Expr

namespace Statement

open Reader

theorem readVariables_tame : readVariables.Tame := .separated rfl Expr.readVariable_tame

theorem readCalculation_tame : readCalculation.Tame := by
  have arrow {α : Type} {x : Reader α} (hx : x.Tame) : (take >>= fun k ↦ if k = Kind.gets then x else fail).Tame :=
    .take_bind (fun _ ↦ if_neg nofun) (fun _ ↦ if_neg nofun) fun _ ↦ .ite hx .fail
  refine Expr.readVariable_tame.bind fun v ↦ (Tame.takeIf (by decide)).bind fun _ ↦ .ite ?_ ?_
  · exact Expr.readList_tame.bind fun subs ↦ arrow (Expr.read_tame.bind fun value ↦ .ite (.pure _) .fail)
  · refine arrow (.ite ?_ (Expr.read_tame.bind fun value ↦ .pure _))
    exact (Tame.separated (by decide) Expr.read_tame).bind fun dims ↦ .pure _

theorem readGerund_tame : readGerund.Tame := by
  intro ts
  cases ts with
  | nil => exact .stay rfl
  | cons t ts =>
    obtain ⟨k, p⟩ := t
    cases k with
    | word w =>
      cases hg : Gerund.ofWord? w with
      | none =>
        refine .stay ?_
        simp only [readGerund, bind_eq, peek, List.head?_cons, Option.map_some, hg, ofOption, fail]
      | some g =>
        have hplain : plain (.word w) = true := by
          simp only [plain, Bool.and_eq_true, bne_iff_ne]
          constructor <;> rintro rfl <;> cases hg
        have hread : readGerund (⟨.word w, p⟩ :: ts) =
            ((g.second?.elim (pure ()) fun second ↦ expect (.word second)) >>= fun _ ↦ pure g) ts := by
          simp only [readGerund, bind_eq, peek, List.head?_cons, Option.map_some, hg, ofOption, pure_eq, take]
          cases g <;> rfl
        have htame : (g.second?.elim (pure ()) fun second ↦ expect (.word second)).Tame := by
          cases g with
          | readingOut | writingIn | comingFrom => exact .expect (by decide)
          | _ => exact .pure ()
        exact ((htame ts).map _).goOn hread (.cons (starts_of_plain hplain ts))
    | _ => exact .stay rfl

theorem readAbstention_minds (ts : List Token) : readAbstention.Minds (starts · = false) ts := by
  have hgerunds : (separated (.punctuation '+') readGerund).Minds (starts · = false) ts :=
    (Tame.separated rfl readGerund_tame).minds ts
  cases ts with
  | nil => exact (hgerunds.map Abstention.gerunds).goOn rfl (.refl _)
  | cons t ts =>
    obtain ⟨k, p⟩ := t
    cases k with
    | label n => exact .last (some (.label n)) rfl fun _ ↦ rfl
    | _ => exact (hgerunds.map Abstention.gerunds).goOn rfl (.refl _)

theorem readVerb_minds (verb : String) (ts : List Token) : (readVerb verb).Minds (starts · = false) ts := by
  unfold readVerb
  split
  · exact (Expr.read_tame.minds ts).map _
  · exact (Expr.read_tame.minds ts).map _
  · exact (Tame.expect (by decide) ts).bind fun _ _ ↦ (readAbstention_minds _).map _
  · exact (readAbstention_minds ts).map _
  · exact (readVariables_tame.minds ts).map _
  · exact (readVariables_tame.minds ts).map _
  · exact (readVariables_tame.minds ts).map _
  · exact (readVariables_tame.minds ts).map _
  · exact (Tame.expect (by decide) ts).bind fun _ _ ↦ ((Tame.separated rfl Expr.read_tame).minds _).map _
  · exact (Tame.expect (by decide) ts).bind fun _ _ ↦ (readVariables_tame.minds _).map _
  · exact (Tame.expect (by decide) ts).bind fun _ _ ↦ .stay rfl
  · refine (Tame.expect (by decide) ts).bind fun _ _ ↦ ?_
    generalize (expect (.word "FROM") ts).2 = us
    cases us with
    | nil => exact .stay rfl
    | cons t us =>
      obtain ⟨k, p⟩ := t
      cases k with
      | label n => exact .last (some (.comeFrom n)) rfl fun _ ↦ rfl
      | _ => exact .last none rfl nofun
  · exact .stay rfl

theorem readBody_minds (ts : List Token) : readBody.Minds (starts · = false) ts := by
  cases ts with
  | nil => exact .stay rfl
  | cons t ts =>
    obtain ⟨k, p⟩ := t
    cases k with
    | label n =>
      have hread : readBody (⟨.label n, p⟩ :: ts) = (expect (.word "NEXT") >>= fun _ ↦ pure (.next n)) ts := rfl
      cases ts with
      | nil => exact .last none hread nofun
      | cons u us =>
        by_cases hu : u.kind = .word "NEXT"
        · have hnext : readBody (⟨.label n, p⟩ :: u :: us) = (pure (.next n) : Reader Body) us := by
            rw [hread, bind_eq, expect, bind_eq, takeIf, if_pos hu]
            rfl
          have hplain := starts_of_plain (t := u) (by rw [hu]; decide) us
          exact (Tame.pure _).minds us |>.goOn hnext ((Passes.cons (starts_label hplain)).trans (.cons hplain))
        · refine .last none ?_ nofun
          rw [hread, bind_eq, expect, bind_eq, takeIf, if_neg hu]
          rfl
    | punctuation c =>
      have hread : readBody (⟨.punctuation c, p⟩ :: ts) = (if (Variable.Kind.ofSigil? c).isSome then
        readCalculation >>= fun e ↦ pure (.effect e) else fail) (⟨.punctuation c, p⟩ :: ts) := rfl
      exact ((Tame.ite (readCalculation_tame.bind fun e ↦ .pure _) .fail).minds _).goOn hread (.refl _)
    | word w =>
      have hread : readBody (⟨.word w, p⟩ :: ts) = readVerb w ts := rfl
      cases hplain : plain (.word w) with
      | true => exact (readVerb_minds w ts).goOn hread (.cons (starts_of_plain hplain ts))
      | false =>
        refine .last none ?_ nofun
        simp only [plain, Bool.and_eq_false_iff, bne_eq_false_iff_eq] at hplain
        rcases hplain with rfl | rfl <;> rfl
    | _ => exact .stay rfl

end Statement

end Intercal
