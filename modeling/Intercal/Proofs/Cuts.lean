import Intercal.Proofs.Recovery

namespace Intercal

open Token Statement

namespace Reader

variable {α β : Type} {x : Reader α} {f : α → Reader β} {ts us rest : List Token}

/-- The second tokens are the first up to the rest, apart from where they stand. -/
inductive Cut (rest : List Token) : List Token → List Token → Prop
  | here : Cut rest rest []
  | token {t u : Token} {ts us : List Token} (kind : u.kind = t.kind) (further : Cut rest ts us) :
      Cut rest (t :: ts) (u :: us)

theorem Cut.length_eq (h : Cut rest ts us) : ts.length = us.length + rest.length := by
  induction h with
  | here => simp
  | token kind further ih =>
    simp only [List.length_cons]
    omega

theorem cut_append {front : List Token} (h : us.map (·.kind) = front.map (·.kind)) : Cut rest (front ++ rest) us := by
  induction front generalizing us with
  | nil =>
    rw [List.map_eq_nil_iff.mp h]
    exact .here
  | cons t front ih =>
    cases us with
    | nil => cases h
    | cons u us =>
      obtain ⟨hkind, hkinds⟩ := List.cons.inj h
      exact .token hkind (ih hkinds)

/-- The reader only takes tokens away. Those that are cut off at the start of a statement it reads as it reads all of
them, if it does not go on behind the cut. -/
structure Local (x : Reader α) : Prop where
  suffix (ts : List Token) : (x ts).2 <:+ ts
  cut {rest ts us : List Token} : rest = [] ∨ starts rest = true → Cut rest ts us → rest <:+ (x ts).2 →
    (x us).1 = (x ts).1 ∧ Cut rest (x ts).2 (x us).2

theorem not_suffix_of_taken {t : Token} (h : us <:+ ts) : ¬ t :: ts <:+ us := by
  intro hsuffix
  have hlength := (hsuffix.trans h).length_le
  simp only [List.length_cons] at hlength
  omega

theorem kind_of_starts {t : Token} {k : Kind} (h : starts (t :: ts) = true) (hk : plain k = true) : t.kind ≠ k := by
  intro hkind
  rw [starts_of_plain (hkind ▸ hk)] at h
  cases h

theorem Cut.of_plain {t : Token} (h : Cut rest (t :: ts) us) (hrest : rest = [] ∨ starts rest = true)
    (hplain : plain t.kind = true) : ∃ u vs, us = u :: vs ∧ u.kind = t.kind ∧ Cut rest ts vs := by
  cases h with
  | here =>
    have hstarts := hrest.resolve_left (List.cons_ne_nil t ts)
    exact absurd rfl (kind_of_starts hstarts hplain)
  | @token _ u _ vs kind further => exact ⟨u, vs, rfl, kind, further⟩

theorem takeIf_cons (k : Kind) (t : Token) (ts : List Token) :
    takeIf k (t :: ts) = if t.kind = k then (some true, ts) else (some false, t :: ts) := rfl

theorem bind_congr {y : Reader α} {g : α → Reader β} (hx : x ts = y ts)
    (hf : ∀ a us, x ts = (some a, us) → f a us = g a us) : (x >>= f) ts = (y >>= g) ts := by
  rw [bind_eq, bind_eq, ← hx]
  split
  · next a us hread => exact hf a us hread
  · rfl

namespace Local

theorem length_le (hx : x.Local) {a? : Option α} (h : x ts = (a?, us)) : us.length ≤ ts.length := by
  have hsuffix := hx.suffix ts
  rw [h] at hsuffix
  exact hsuffix.length_le

theorem pure (a : α) : (pure a : Reader α).Local := ⟨fun _ ↦ List.suffix_rfl, fun _ hcut _ ↦ ⟨rfl, hcut⟩⟩

theorem fail : (fail : Reader α).Local := ⟨fun _ ↦ List.suffix_rfl, fun _ hcut _ ↦ ⟨rfl, hcut⟩⟩

theorem ofOption (a? : Option α) : (ofOption a?).Local := by
  cases a? with
  | none => exact fail
  | some a => exact pure a

theorem bind (hx : x.Local) (hf : ∀ a, (f a).Local) : (x >>= f).Local := by
  have hsuffix (ts : List Token) : ((x >>= f) ts).2 <:+ (x ts).2 := by
    rw [bind_eq]
    rcases x ts with ⟨_ | a, us⟩
    · exact List.suffix_rfl
    · exact (hf a).suffix us
  refine ⟨fun ts ↦ (hsuffix ts).trans (hx.suffix ts), ?_⟩
  intro rest ts us hrest hcut hleft
  obtain ⟨hvalue, hcut⟩ := hx.cut hrest hcut (hleft.trans (hsuffix ts))
  rw [bind_eq] at hleft ⊢
  rw [bind_eq]
  rcases hts : x ts with ⟨a?, ts'⟩
  rcases hus : x us with ⟨b?, us'⟩
  rw [hts, hus] at hvalue hcut
  rw [hts] at hleft
  cases hvalue
  cases a? with
  | none => exact ⟨rfl, hcut⟩
  | some a => exact (hf a).cut hrest hcut hleft

theorem ite {y : Reader α} {p : Prop} [Decidable p] (hx : x.Local) (hy : y.Local) : (if p then x else y).Local := by
  split
  · exact hx
  · exact hy

theorem take : take.Local := by
  constructor
  · intro ts
    cases ts with
    | nil => exact List.suffix_rfl
    | cons t ts => exact List.suffix_cons t ts
  · intro rest ts us hrest hcut hleft
    cases hcut with
    | here =>
      cases rest with
      | nil => exact ⟨rfl, .here⟩
      | cons t rest => exact absurd hleft (not_suffix_of_taken List.suffix_rfl)
    | token kind further => exact ⟨congrArg some kind, further⟩

theorem takeIf {k : Kind} (hk : plain k = true) : (takeIf k).Local := by
  constructor
  · intro ts
    cases ts with
    | nil => exact List.suffix_rfl
    | cons t ts =>
      rw [takeIf_cons]
      split
      · exact List.suffix_cons t ts
      · exact List.suffix_rfl
  · intro rest ts us hrest hcut _
    cases hcut with
    | here =>
      cases rest with
      | nil => exact ⟨rfl, .here⟩
      | cons t rest =>
        have hkind := kind_of_starts (hrest.resolve_left (List.cons_ne_nil t rest)) hk
        rw [takeIf_cons, if_neg hkind]
        exact ⟨rfl, .here⟩
    | @token t u ts us kind further =>
      rw [takeIf_cons, takeIf_cons, kind]
      split
      · exact ⟨rfl, further⟩
      · exact ⟨rfl, .token kind further⟩

theorem expect {k : Kind} (hk : plain k = true) : (expect k).Local :=
  (takeIf hk).bind fun _ ↦ .ite (pure ()) fail

/-- To look at a token does not matter, if one with which a statement may start is taken or makes no difference. -/
theorem peek_bind {f : Option Kind → Reader β} (hf : ∀ k?, (f k?).Local)
    (hk : ∀ k, plain k = false → f (some k) = f none ∨ ∀ t ts, (f (some k) (t :: ts)).2 <:+ ts) :
    (peek >>= f).Local := by
  have hpeek (ts : List Token) : (peek >>= f) ts = f (ts.head?.map (·.kind)) ts := rfl
  refine ⟨fun ts ↦ (hf _).suffix ts, ?_⟩
  intro rest ts us hrest hcut hleft
  rw [hpeek] at hleft ⊢
  rw [hpeek]
  cases hcut with
  | here =>
    cases rest with
    | nil => exact (hf none).cut hrest .here hleft
    | cons t rest =>
      have hstarts := hrest.resolve_left (List.cons_ne_nil t rest)
      have hplain : plain t.kind = false := by
        cases h : plain t.kind with
        | false => rfl
        | true =>
          rw [starts_of_plain h] at hstarts
          cases hstarts
      simp only [List.head?_cons, Option.map_some] at hleft ⊢
      rcases hk t.kind hplain with heq | htaken
      · rw [heq] at hleft ⊢
        exact (hf none).cut hrest .here hleft
      · exact absurd hleft (not_suffix_of_taken (htaken t rest))
  | @token t u ts us kind further =>
    simp only [List.head?_cons, Option.map_some, kind] at hleft ⊢
    exact (hf _).cut hrest (.token kind further) hleft

/-- A bound on the number of steps does not matter, if it is enough for the tokens that there are. -/
theorem bounded {g : Nat → Reader α} {bound : List Token → Nat} (hg : ∀ n, (g n).Local)
    (hmono : ∀ ts us : List Token, us.length ≤ ts.length → bound us ≤ bound ts)
    (henough : ∀ n ts, bound ts ≤ n → g n ts = g (bound ts) ts) : Local fun ts ↦ g (bound ts) ts := by
  refine ⟨fun ts ↦ (hg (bound ts)).suffix ts, fun {rest ts us} hrest hcut hleft ↦ ?_⟩
  have hlength : us.length ≤ ts.length := by
    rw [hcut.length_eq]
    exact Nat.le_add_right _ _
  rw [← henough (bound ts) us (hmono ts us hlength)]
  exact (hg (bound ts)).cut hrest hcut hleft

theorem moreItems_enough (sep : Kind) (hx : x.Local) (n m : Nat) (ts : List Token) (hn : ts.length ≤ n)
    (hm : ts.length ≤ m) : moreItems sep x n ts = moreItems sep x m ts := by
  induction n generalizing m ts with
  | zero =>
    cases List.length_eq_zero_iff.mp (Nat.le_zero.mp hn)
    cases m <;> rfl
  | succ n ih =>
    cases m with
    | zero =>
      cases List.length_eq_zero_iff.mp (Nat.le_zero.mp hm)
      rfl
    | succ m =>
      refine bind_congr rfl fun found us htake ↦ ?_
      cases found with
      | false => rfl
      | true =>
        have hlength : us.length < ts.length := by
          cases ts with
          | nil => cases htake
          | cons t ts =>
            rw [takeIf_cons] at htake
            split at htake <;> cases htake
            exact Nat.lt_succ_self _
        refine bind_congr rfl fun a vs hread ↦ ?_
        have hle : vs.length ≤ us.length := hx.length_le hread
        refine bind_congr (ih m vs ?_ ?_) fun _ _ _ ↦ rfl <;> omega

theorem separated {sep : Kind} (hsep : plain sep = true) (hx : x.Local) : (separated sep x).Local := by
  have hmore (n : Nat) : (moreItems sep x n).Local := by
    induction n with
    | zero => exact pure []
    | succ n ih => exact (takeIf hsep).bind fun _ ↦ .ite (hx.bind fun a ↦ ih.bind fun as ↦ pure (a :: as)) (pure [])
  have hbounded : Local fun ts ↦ moreItems sep x ts.length ts :=
    bounded hmore (fun _ _ h ↦ h) fun n ts hn ↦ moreItems_enough sep hx n ts.length ts hn (Nat.le_refl _)
  exact hx.bind fun a ↦ hbounded.bind fun as ↦ pure (a :: as)

end Local

structure Consumes (x : Reader α) : Prop where
  length_lt {ts us : List Token} {a : α} : x ts = (some a, us) → us.length < ts.length

theorem Consumes.bind (hx : x.Consumes) (hf : ∀ a, (f a).Local) : (x >>= f).Consumes := by
  refine ⟨fun {ts us b} h ↦ ?_⟩
  rw [bind_eq] at h
  split at h
  · next a vs hread => exact Nat.lt_of_le_of_lt ((hf a).length_le h) (hx.length_lt hread)
  · cases h

theorem take_consumes : take.Consumes := by
  refine ⟨fun {ts us k} h ↦ ?_⟩
  cases ts with
  | nil => cases h
  | cons t ts =>
    cases h
    exact Nat.lt_succ_self _

end Reader

namespace Expr

open Reader

theorem readNumber_local : readNumber.Local := by
  refine Local.take.bind fun k ↦ ?_
  cases k with
  | number n => exact .ite (.pure n) .fail
  | _ => exact .fail

theorem readIndex_local : readIndex.Local := readNumber_local.bind fun n ↦ .ite .fail (.pure n)

theorem readVariable_local : readVariable.Local := by
  refine Local.take.bind fun k ↦ ?_
  cases k with
  | punctuation c => exact (Local.ofOption _).bind fun kind ↦ readIndex_local.bind fun n ↦ .pure _
  | _ => exact .fail

theorem readUnary_local : readUnary.Local :=
  (Local.takeIf rfl).bind fun _ ↦ .ite (.pure _) <| (Local.takeIf rfl).bind fun _ ↦ .ite (.pure _) <|
    (Local.takeIf rfl).bind fun _ ↦ .ite (.pure _) (.pure _)

structure LocalTo (n : Nat) : Prop where
  expr (closer : Option Char) : (readExpr n closer).Local ∧ (readExpr n closer).Consumes
  operand (closer : Option Char) : (readOperand n closer).Local ∧ (readOperand n closer).Consumes
  group (quote : Char) : (readGroup n quote).Local
  subscripts (closer : Option Char) : (readSubscripts n closer).Local

theorem localTo (n : Nat) : LocalTo n := by
  induction n with
  | zero => exact ⟨fun _ ↦ ⟨.fail, ⟨nofun⟩⟩, fun _ ↦ ⟨.fail, ⟨nofun⟩⟩, fun _ ↦ .fail, fun _ ↦ .fail⟩
  | succ n ih =>
    constructor
    case expr =>
      intro closer
      suffices hmore : _ from
        ⟨(ih.operand closer).1.bind hmore, (ih.operand closer).2.bind hmore⟩
      refine fun left ↦ (Local.takeIf rfl).bind fun _ ↦ .ite ?_ ?_
      · exact (ih.expr closer).1.bind fun right ↦ .pure _
      · exact (Local.takeIf rfl).bind fun _ ↦ .ite ((ih.expr closer).1.bind fun right ↦ .pure _) (.pure left)
    case operand =>
      intro closer
      suffices hmore : _ from ⟨Local.take.bind hmore, take_consumes.bind hmore⟩
      intro k
      split
      · exact readUnary_local.bind fun op ↦ readNumber_local.bind fun value ↦ .pure _
      · exact ih.group _
      · exact ih.group _
      · refine (Local.ofOption _).bind fun kind ↦ readUnary_local.bind fun op ↦ readIndex_local.bind fun number ↦ ?_
        refine .ite (.pure _) ((Local.takeIf rfl).bind fun _ ↦ .ite ?_ (.pure _))
        exact (ih.subscripts closer).bind fun subs ↦ .pure _
      · exact .fail
    case group =>
      intro quote
      refine readUnary_local.bind fun op ↦ (ih.expr _).1.bind fun inner ↦ ?_
      exact Local.take.bind fun k ↦ .ite (.pure _) .fail
    case subscripts =>
      intro closer
      refine (ih.expr closer).1.bind fun e ↦ .peek_bind (fun k? ↦ ?_) fun k hk ↦ .inl ?_
      · exact .ite ((ih.subscripts closer).bind fun es ↦ .pure _) (.pure _)
      · -- no operand begins with a word or a label
        cases k with
        | word w => rfl
        | label n => rfl
        | _ => cases hk

/-- A depth that is enough to read tokens. An expression in a group or a subscript is three calls away from the one
around it, and the token before it is gone by then. -/
structure EnoughAt (n : Nat) : Prop where
  expr (closer : Option Char) (m : Nat) (ts : List Token) : 3 * ts.length + 2 ≤ n → n ≤ m →
    readExpr n closer ts = readExpr m closer ts
  operand (closer : Option Char) (m : Nat) (ts : List Token) : 3 * ts.length + 1 ≤ n → n ≤ m →
    readOperand n closer ts = readOperand m closer ts
  group (quote : Char) (m : Nat) (ts : List Token) : 3 * ts.length + 3 ≤ n → n ≤ m →
    readGroup n quote ts = readGroup m quote ts
  subscripts (closer : Option Char) (m : Nat) (ts : List Token) : 3 * ts.length + 3 ≤ n → n ≤ m →
    readSubscripts n closer ts = readSubscripts m closer ts

theorem enoughAt (n : Nat) : EnoughAt n := by
  induction n with
  | zero => constructor <;> intros <;> omega
  | succ n ih =>
    constructor
    case expr =>
      intro closer m ts hn hm
      obtain ⟨m, rfl⟩ : ∃ k, m = k + 1 := ⟨m - 1, by omega⟩
      refine bind_congr (ih.operand closer m ts (by omega) (by omega)) fun left us hleft ↦ ?_
      have hus := ((localTo n).operand closer).2.length_lt hleft
      refine bind_congr rfl fun mingles vs hmingle ↦ ?_
      have hvs := (Local.takeIf rfl).length_le hmingle
      cases mingles with
      | true => exact bind_congr (ih.expr closer m vs (by omega) (by omega)) fun _ _ _ ↦ rfl
      | false =>
        refine bind_congr rfl fun selects ws hselect ↦ ?_
        have hws := (Local.takeIf rfl).length_le hselect
        cases selects with
        | true => exact bind_congr (ih.expr closer m ws (by omega) (by omega)) fun _ _ _ ↦ rfl
        | false => rfl
    case operand =>
      intro closer m ts hn hm
      obtain ⟨m, rfl⟩ : ∃ k, m = k + 1 := ⟨m - 1, by omega⟩
      refine bind_congr rfl fun k us htake ↦ ?_
      have hus := take_consumes.length_lt htake
      split
      · rfl
      · exact ih.group _ m us (by omega) (by omega)
      · exact ih.group _ m us (by omega) (by omega)
      · refine bind_congr rfl fun kind vs hkind ↦ bind_congr rfl fun op ws hop ↦ ?_
        refine bind_congr rfl fun number xs hnumber ↦ ?_
        have hvs := (Local.ofOption _).length_le hkind
        have hws := readUnary_local.length_le hop
        have hxs := readIndex_local.length_le hnumber
        split
        · rfl
        · refine bind_congr rfl fun subscripted ys hsub ↦ ?_
          have hys := (Local.takeIf rfl).length_le hsub
          cases subscripted with
          | true => exact bind_congr (ih.subscripts closer m ys (by omega) (by omega)) fun _ _ _ ↦ rfl
          | false => rfl
      · rfl
    case group =>
      intro quote m ts hn hm
      obtain ⟨m, rfl⟩ : ∃ k, m = k + 1 := ⟨m - 1, by omega⟩
      refine bind_congr rfl fun op us hop ↦ ?_
      have hus := readUnary_local.length_le hop
      exact bind_congr (ih.expr (some quote) m us (by omega) (by omega)) fun _ _ _ ↦ rfl
    case subscripts =>
      intro closer m ts hn hm
      obtain ⟨m, rfl⟩ : ∃ k, m = k + 1 := ⟨m - 1, by omega⟩
      refine bind_congr (ih.expr closer m ts (by omega) (by omega)) fun e us hread ↦ bind_congr rfl fun k? vs hpeek ↦ ?_
      have hus := ((localTo n).expr closer).2.length_lt hread
      cases hpeek
      split
      · exact bind_congr (ih.subscripts closer m us (by omega) (by omega)) fun _ _ _ ↦ rfl
      · rfl

theorem depthFor_mono (ts us : List Token) (h : us.length ≤ ts.length) : depthFor us ≤ depthFor ts := by
  unfold depthFor
  omega

theorem read_local : Expr.read.Local :=
  .bounded (fun n ↦ ((localTo n).expr none).1) depthFor_mono fun n ts hn ↦
    ((enoughAt (depthFor ts)).expr none n ts (by unfold depthFor; omega) hn).symm

theorem readList_local : readList.Local :=
  .bounded (fun n ↦ (localTo n).subscripts none) depthFor_mono fun n ts hn ↦
    ((enoughAt (depthFor ts)).subscripts none n ts (by unfold depthFor; omega) hn).symm

end Expr

end Intercal
