import Intercal.Bits
import Intercal.Proofs.Recovery

namespace Intercal

def Value.Sound (x : Value) : Prop := x.wide = false → x.bits.toNat ≤ 65535

/-- Every constant fits the width that it is marked with, also in subscripts. -/
inductive Expr.Sound : Expr → Prop
  | constant {n : Word} {wide : Bool} (fits : Value.Sound ⟨n, wide⟩) : Sound (.constant n wide)
  | var (v : Variable) : Sound (.var v)
  | array (v : Variable) : Sound (.array v)
  | element (a : Variable) {subs : List Expr} (subscripts : ∀ e ∈ subs, Sound e) : Sound (.element a subs)
  | unary (op : UnaryOp) {e : Expr} (operand : Sound e) : Sound (.unary op e)
  | mingle {l r : Expr} (left : Sound l) (right : Sound r) : Sound (.mingle l r)
  | select {l r : Expr} (left : Sound l) (right : Sound r) : Sound (.select l r)

def Effect.exprs : Effect → List Expr
  | .assign (.scalar _) e => [e]
  | .assign (.element _ subs) e => e :: subs
  | .redimension _ es | .readOut es => es
  | .stash _ | .retrieve _ | .ignore _ | .remember _ | .writeIn _ => []

def Body.exprs : Body → List Expr
  | .effect e => e.exprs
  | .resume e | .forget e => [e]
  | .next _ | .abstain _ | .reinstate _ | .giveUp | .comeFrom _ | .malformed => []

namespace Reader.Yields

variable {α β : Type} {P : α → Prop} {Q : β → Prop} {x : Reader α} {f : α → Reader β}

theorem andThen (hx : Yields P x) (hf : ∀ a, P a → Yields Q (f a)) : Yields Q (x >>= f) := by
  intro ts b h
  rw [bind_eq] at h
  split at h
  · next a rest hread => exact hf a (hx ts a (by rw [hread])) rest b h
  · cases h

theorem ite {y : Reader α} {p : Prop} [Decidable p] (hx : Yields P x) (hy : Yields P y) :
    Yields P (if p then x else y) := by
  split
  · exact hx
  · exact hy

theorem bounded {g : Nat → Reader α} (hg : ∀ n, Yields P (g n)) (bound : List Token → Nat) :
    Yields P fun ts ↦ g (bound ts) ts :=
  fun ts ↦ hg (bound ts) ts

theorem separated (sep : Token.Kind) (hx : Yields P x) : Yields (∀ a ∈ ·, P a) (separated sep x) := by
  have hcons {a : α} {as : List α} (ha : P a) (has : ∀ b ∈ as, P b) :
      Yields (∀ b ∈ ·, P b) (Pure.pure (a :: as)) := .pure (List.forall_mem_cons.mpr ⟨ha, has⟩)
  have hnil : Yields (∀ a ∈ ·, P a) (Pure.pure []) := .pure fun a ha ↦ absurd ha List.not_mem_nil
  have hmore (n : Nat) : Yields (∀ a ∈ ·, P a) (moreItems sep x n) := by
    induction n with
    | zero => exact hnil
    | succ n ih => exact .bind fun _ ↦ .ite (hx.andThen fun a ha ↦ ih.andThen fun as has ↦ hcons ha has) hnil
  exact hx.andThen fun a ha ↦ (bounded hmore List.length).andThen fun as has ↦ hcons ha has

end Reader.Yields

namespace Expr

open Reader

theorem Sound.withUnary {e : Expr} (he : e.Sound) (op? : Option UnaryOp) : (withUnary op? e).Sound := by
  cases op? with
  | none => exact he
  | some op => exact .unary op he

theorem readNumber_yields : Yields (· ≤ 65535) readNumber := by
  refine .bind fun k ↦ ?_
  cases k with
  | number n =>
    dsimp only
    split
    · next hn => exact .pure hn
    · exact .fail
  | _ => exact .fail

theorem sound_constant {n : Nat} (hn : n ≤ 65535) : (constant (BitVec.ofNat 32 n) false).Sound := by
  refine .constant fun _ ↦ ?_
  rw [BitVec.toNat_ofNat]
  omega

structure SoundTo (n : Nat) : Prop where
  expr (closer : Option Char) : Yields Sound (readExpr n closer)
  operand (closer : Option Char) : Yields Sound (readOperand n closer)
  group (quote : Char) : Yields Sound (readGroup n quote)
  subscripts (closer : Option Char) : Yields (∀ e ∈ ·, e.Sound) (readSubscripts n closer)

theorem soundTo (n : Nat) : SoundTo n := by
  induction n with
  | zero => exact ⟨fun _ ↦ .fail, fun _ ↦ .fail, fun _ ↦ .fail, fun _ ↦ .fail⟩
  | succ n ih =>
    refine ⟨fun closer ↦ ?_, fun closer ↦ ?_, fun quote ↦ ?_, fun closer ↦ ?_⟩
    · refine (ih.operand closer).andThen fun left hleft ↦ .bind fun _ ↦ .ite ?_ ?_
      · exact (ih.expr closer).andThen fun right hright ↦ .pure (.mingle hleft hright)
      · refine .bind fun _ ↦ .ite ?_ (.pure hleft)
        exact (ih.expr closer).andThen fun right hright ↦ .pure (.select hleft hright)
    · refine .bind fun k ↦ ?_
      split
      · exact .bind fun op ↦ readNumber_yields.andThen fun n hn ↦ .pure ((sound_constant hn).withUnary op)
      · exact ih.group _
      · exact ih.group _
      · refine .bind fun kind ↦ .bind fun op ↦ .bind fun number ↦ .ite (.pure (.withUnary (.var _) op)) ?_
        refine .bind fun _ ↦ .ite ?_ (.pure (.withUnary (.array _) op))
        exact (ih.subscripts closer).andThen fun subs hsubs ↦ .pure (.withUnary (.element _ hsubs) op)
      · exact .fail
    · refine .bind fun op ↦ (ih.expr _).andThen fun inner hinner ↦ .bind fun k ↦ ?_
      exact .ite (.pure (hinner.withUnary op)) .fail
    · refine (ih.expr closer).andThen fun e he ↦ .bind fun k? ↦ .ite ?_ ?_
      · exact (ih.subscripts closer).andThen fun es hes ↦ .pure (List.forall_mem_cons.mpr ⟨he, hes⟩)
      · exact .pure (List.forall_mem_singleton.mpr he)

theorem read_yields : Yields Sound Expr.read := .bounded (fun n ↦ (soundTo n).expr none) depthFor

theorem readList_yields : Yields (∀ e ∈ ·, e.Sound) readList := .bounded (fun n ↦ (soundTo n).subscripts none) depthFor

end Expr

namespace Statement

open Reader

theorem readCalculation_yields : Yields (∀ e ∈ Effect.exprs ·, e.Sound) readCalculation := by
  refine .bind fun v ↦ .bind fun _ ↦ .ite ?_ (.bind fun k ↦ .ite (.ite ?_ ?_) .fail)
  · refine Expr.readList_yields.andThen fun subs hsubs ↦ .bind fun k ↦ .ite ?_ .fail
    refine Expr.read_yields.andThen fun value hvalue ↦ .ite (.pure ?_) .fail
    exact List.forall_mem_cons.mpr ⟨hvalue, hsubs⟩
  · exact (Expr.read_yields.separated _).andThen fun dims hdims ↦ .pure hdims
  · exact Expr.read_yields.andThen fun value hvalue ↦ .pure (List.forall_mem_singleton.mpr hvalue)

theorem readVerb_sound (verb : String) : Yields (∀ e ∈ Body.exprs ·, e.Sound) (readVerb verb) := by
  have hnone {b : Body} (hb : b.exprs = []) : ∀ e ∈ b.exprs, e.Sound := by
    rw [hb]
    exact fun e he ↦ absurd he List.not_mem_nil
  unfold readVerb
  split
  case h_1 | h_2 => exact Expr.read_yields.andThen fun e he ↦ .pure (List.forall_mem_singleton.mpr he)
  case h_9 => exact .bind fun _ ↦ (Expr.read_yields.separated _).andThen fun items hitems ↦ .pure hitems
  case h_12 =>
    refine .bind fun _ ↦ .bind fun k ↦ ?_
    split
    · exact .pure (hnone rfl)
    · exact .fail
  case h_13 => exact .fail
  all_goals
    repeat' first
      | exact .pure (hnone rfl)
      | refine .bind fun _ ↦ ?_

theorem readBody_sound : Yields (∀ e ∈ Body.exprs ·, e.Sound) readBody := by
  refine .bind fun k ↦ ?_
  split
  · exact .bind fun _ ↦ .bind fun _ ↦ .pure fun e he ↦ absurd he List.not_mem_nil
  · exact .ite (readCalculation_yields.andThen fun e he ↦ .pure he) .fail
  · exact .bind fun _ ↦ readVerb_sound _
  · exact .fail

theorem readStatement_sound (ts : List Token) : ∀ e ∈ (readStatement ts).2.1.exprs, e.Sound := by
  have hmalformed : ∀ e ∈ Body.malformed.exprs, e.Sound := fun e he ↦ absurd he List.not_mem_nil
  unfold readStatement
  rcases readHeader ts with ⟨header, _ | _, after⟩
  · exact hmalformed
  · dsimp only
    rw [if_pos rfl]
    rcases hbody : readBody after with ⟨_ | b, stopped⟩
    · exact hmalformed
    · dsimp only
      split
      · exact readBody_sound after b (by rw [hbody])
      · exact hmalformed

/-- Every constant in a program is short, as it stands in the text. -/
theorem parse_sound {source : List Char} {st : Statement} (h : st ∈ parse source) : ∀ e ∈ st.body.exprs, e.Sound := by
  obtain ⟨k, hk⟩ := List.mem_iff_getElem?.mp h
  have hbegins := begins_parse source k
  rw [hk] at hbegins
  cases hunread : unread k (Token.tokenize source).1 with
  | nil =>
    rw [hunread] at hbegins
    cases hbegins
  | cons t ts =>
    rw [hunread] at hbegins
    obtain ⟨st', hst', -, -, hbody⟩ := hbegins
    cases hst'
    rw [hbody]
    exact readStatement_sound (t :: ts)

end Statement

end Intercal
