import Intercal.Proofs.Addressing
import Intercal.Proofs.Analysis
import Intercal.Proofs.Constants
import Intercal.Proofs.Folding
import Intercal.Proofs.Frozen
import Intercal.Proofs.Masks

namespace Intercal

namespace Bits

theorem unary_wide (op : UnaryOp) (x : Value) : (unary op x).wide = x.wide := by
  unfold unary
  split <;> rfl

/-- Within 16 bits a unary operator stays within 16 bits. -/
theorem unary_sound (op : UnaryOp) (x : Value) : (unary op x).Sound := by
  intro hwide
  rw [unary_wide] at hwide
  rw [unary, if_neg (Bool.eq_false_iff.mp hwide)]
  dsimp only
  rw [BitVec.toNat_setWidth]
  omega

end Bits

namespace Expr

def isWide : Expr → Bool
  | .constant _ wide => wide
  | .var v => v.kind = .twoSpot
  | .element a _ => a.kind = .hybrid
  | .array _ => false
  | .unary _ e => e.isWide
  | .mingle _ _ => true
  | .select _ r => r.isWide

/-- The width of a value does not depend on the store. -/
theorem eval_wide {s : Store} : (e : Expr) → {x : Value} → e.eval s = .ok x → x.wide = e.isWide
  | .constant .., _, h => by
    cases h
    rfl
  | .var v, _, h => by
    obtain ⟨y, -, hx⟩ := bind_eq_ok h
    cases hx
    rfl
  | .element a subs, _, h => by
    obtain ⟨is, -, h⟩ := bind_eq_ok h
    obtain ⟨y, -, hx⟩ := bind_eq_ok h
    cases hx
    rfl
  | .array v, _, h => by cases h
  | .unary op e, _, h => by
    obtain ⟨y, hy, hx⟩ := bind_eq_ok h
    cases hx
    exact (Bits.unary_wide op y).trans (eval_wide e hy)
  | .mingle l r, _, h => by
    obtain ⟨y, -, h⟩ := bind_eq_ok h
    obtain ⟨z, -, h⟩ := bind_eq_ok h
    obtain ⟨w, -, hx⟩ := bind_eq_ok h
    cases hx
    rfl
  | .select l r, _, h => by
    obtain ⟨y, -, h⟩ := bind_eq_ok h
    obtain ⟨z, hz, hx⟩ := bind_eq_ok h
    cases hx
    exact (eval_wide r hz :)

end Expr

theorem Grid.mem_of_get? {g : Grid} {is : List Nat} {x : Word} (h : g.get? is = some x) : x ∈ g.elements := by
  obtain ⟨i, -, hi⟩ := Option.bind_eq_some_iff.mp h
  exact Array.mem_of_getElem? hi

namespace Store

variable {s : Store} {v : Variable} {x : Word}

def Kinded (s : Store) : Prop := ∀ v c, s.arrays.get? v = some c → v.kind.isArray = true

theorem Kinded.insert (hs : s.Kinded) (hv : v.kind.isArray = true) (c : Cell (Option Grid)) :
    Kinded { s with arrays := s.arrays.insert v c } := by
  intro w d hd
  by_cases hw : v = w
  · rwa [← hw]
  · rw [Table.get?_insert_of_ne s.arrays hw] at hd
    exact hs w d hd

theorem Change.kinded (c : Change) (hs : s.Kinded) : (s.run c.act).2.Kinded := by
  cases c with
  | write v x =>
    simp only [act, run, Store.write]
    repeat' split
    all_goals exact hs
  | writeElement v subscripts x =>
    simp only [act, run, Store.writeElement]
    split
    · exact hs
    · next c hget =>
      repeat' split
      · exact hs
      · exact hs
      · exact hs
      · exact hs
      · exact hs.insert (hs v c hget) _
  | redimension v dimensions =>
    simp only [act, run, Store.redimension]
    split
    · exact hs
    · next hv =>
      rw [Bool.not_eq_true, Bool.not_eq_false'] at hv
      repeat' split
      · exact hs
      · exact hs
      · exact hs.insert hv _
      · exact hs.insert hv _
      · exact (hs.insert hv _).insert hv _
  | stash v =>
    simp only [act, run, Store.stash]
    split
    · next hv => exact hs.insert hv _
    · exact hs
  | retrieve v =>
    simp only [act, run, Store.retrieve]
    split
    · next hv =>
      split
      · next arrays hretrieve =>
        obtain ⟨d, rfl, -⟩ := retrieve?_turns v hretrieve
        exact hs.insert hv d
      · exact hs
    · split <;> exact hs
  | ignore v =>
    simp only [act, run, Store.ignore]
    split
    · next hv => exact hs.insert hv _
    · exact hs
  | remember v =>
    simp only [act, run, Store.remember, Bank.remember]
    split
    · next hv =>
      split
      · exact hs.insert hv _
      · exact hs
    · exact hs

theorem steady_kinded : Steady Kinded fun _ ↦ True :=
  .of_act ⟨fun _ harrays hs ↦ by rwa [Kinded, harrays], fun _ ↦ trivial⟩
    fun c _ hs ↦ ⟨c.kinded hs, fun _ _ ↦ trivial⟩

theorem Reachable.kinded (h : s.Reachable) : s.Kinded := by
  obtain ⟨input, source, rs, rfl⟩ := h
  exact steady_kinded.serve (fun _ ↦ trivial) rs nofun

theorem readElement_eq_ok {subscripts : List Nat} (h : s.readElement v subscripts = .ok x) :
    ∃ g, s.grid v = .ok g ∧ g.get? subscripts = some x := by
  obtain ⟨g, hg, h⟩ := bind_eq_ok h
  refine ⟨g, hg, ?_⟩
  split at h <;> cases h
  assumption

end Store

namespace Expr

variable {s : Store} {x : Value}

/-- A short expression has short values, because the store keeps to the widths of its places. -/
theorem eval_sound {e : Expr} (hs : s.Sound) (hkinded : s.Kinded) (he : e.Sound) (h : e.eval s = .ok x) : x.Sound := by
  induction he generalizing x with
  | constant fits =>
    cases h
    exact fits
  | var v =>
    obtain ⟨y, hy, hx⟩ := bind_eq_ok h
    have hv := Store.isArray_of_read hy
    cases hx
    intro hwide
    have hshort : v.kind.isShort = true := by
      cases hkind : v.kind with
      | spot => rfl
      | _ => simp [hkind, Variable.Kind.isArray] at hwide hv
    exact hs.read_fits hy hshort
  | array v => cases h
  | element a _ _ =>
    obtain ⟨is, -, h⟩ := bind_eq_ok h
    obtain ⟨y, hy, hx⟩ := bind_eq_ok h
    obtain ⟨g, hg, hget⟩ := Store.readElement_eq_ok hy
    obtain ⟨c, hc, -⟩ := Store.grid_eq_ok.mp hg
    -- only arrays have elements: a two-spot that had them would count as short here and could hold 32 bits
    have ha := hkinded a c hc
    cases hx
    intro hwide
    have hshort : a.kind.isShort = true := by
      cases hkind : a.kind with
      | tail => rfl
      | _ => simp [hkind, Variable.Kind.isArray] at hwide ha
    exact (hs.grid hg).fits y (Grid.mem_of_get? hget) hshort
  | unary op _ _ =>
    obtain ⟨y, -, hx⟩ := bind_eq_ok h
    cases hx
    exact Bits.unary_sound op y
  | mingle _ _ _ _ =>
    obtain ⟨y, -, h⟩ := bind_eq_ok h
    obtain ⟨z, -, h⟩ := bind_eq_ok h
    obtain ⟨w, -, hx⟩ := bind_eq_ok h
    cases hx
    exact nofun
  | select _ _ _ ih =>
    obtain ⟨y, -, h⟩ := bind_eq_ok h
    obtain ⟨z, hz, hx⟩ := bind_eq_ok h
    cases hx
    exact fun hwide ↦ Bits.select_short (Bits.ones_le_of_short (ih hz hwide)) y.bits

section Fold

/-- What an operator on constants is replaced by is its value in any store, so also in a new one. -/
theorem isWide_reduce (x : Folded Expr) : (reduce x).result.isWide = x.result.isWide := by
  unfold reduce
  cases hx : reduce? x.result with
  | some v => exact eval_wide x.result (eval_of_reduce? {} hx)
  | none => rfl

theorem Sound.reduce {x : Folded Expr} (h : x.result.Sound) : (reduce x).result.Sound := by
  unfold Expr.reduce
  cases hx : reduce? x.result with
  | some v => exact .constant (eval_sound (Store.sound_new [] ⟨0, 0⟩) nofun h (eval_of_reduce? {} hx))
  | none => exact h

theorem isWide_fold (e : Expr) : e.fold.result.isWide = e.isWide := by
  cases e with
  | constant n wide => exact isWide_reduce (.none (.constant n wide))
  | var v => exact isWide_reduce (.none (.var v))
  | array v => exact isWide_reduce (.none (.array v))
  | element a subs =>
    rw [fold, isWide_reduce]
    rfl
  | unary op e =>
    rw [fold, isWide_reduce]
    exact isWide_fold e
  | mingle l r =>
    rw [fold, isWide_reduce]
    rfl
  | select l r =>
    rw [fold, isWide_reduce]
    exact isWide_fold r

mutual

theorem sound_fold : (e : Expr) → e.Sound → e.fold.result.Sound
  | .constant .., h => Sound.reduce (x := .none _) h
  | .var _, h => Sound.reduce (x := .none _) h
  | .array _, h => Sound.reduce (x := .none _) h
  | .element a subs, .element _ hsubs => Sound.reduce (.element a (sound_foldAll subs hsubs))
  | .unary op e, .unary _ he => Sound.reduce (.unary op (sound_fold e he))
  | .mingle l r, .mingle hl hr => Sound.reduce (.mingle (sound_fold l hl) (sound_fold r hr))
  | .select l r, .select hl hr => Sound.reduce (.select (sound_fold l hl) (sound_fold r hr))

theorem sound_foldAll : (es : List Expr) → (∀ e ∈ es, e.Sound) → ∀ e ∈ (foldAll es).result, e.Sound
  | [], h => h
  | e :: es, h => by
    rw [List.forall_mem_cons] at h
    exact List.forall_mem_cons.mpr ⟨sound_fold e h.1, sound_foldAll es h.2⟩

end

end Fold

end Expr

theorem Fault.code_of_ofExpr {f : Fault} (h : f.ofExpr) : f.code ≠ .e275 := by
  cases f with
  | unset | hyperspace | arrayAsValue | mingleTooWide => exact nofun
  | _ => cases h

namespace Store

variable {s : Store} {v : Variable} {e : Expr} {x : Value}

theorem write_code (hx : v.Fits x.bits) {f : Fault} (hf : (s.run (write v x.bits)).1 = .error f) : f.code ≠ .e275 := by
  cases hv : v.kind.isArray with
  | true =>
    rw [run, write, if_pos hv] at hf
    cases hf
    exact Fault.code_of_ofExpr rfl
  | false =>
    obtain ⟨t, ht, -⟩ := run_write_of_fits hv hx s
    rw [ht] at hf
    cases hf

theorem writeElement_code {subscripts : List Nat} (hx : v.Fits x.bits) {f : Fault}
    (hf : (s.run (writeElement v subscripts x.bits)).1 = .error f) : f.code ≠ .e275 := by
  simp only [run, writeElement, exceeds_of_fits hx, Bool.false_eq_true, if_false] at hf
  repeat' split at hf
  all_goals cases hf
  all_goals exact Fault.code_of_ofExpr rfl

theorem run_assign_scalar (h : e.eval s = .ok x) (v : Variable) :
    s.run (Effect.assign (.scalar v) e).perform = s.run (write v x.bits) := by
  rw [Effect.perform]
  exact run_ask_ok h _

theorem run_assign_element {subs : List Expr} {is : List Nat} (h : e.eval s = .ok x)
    (hsubs : Expr.evalAll s subs = .ok is) (a : Variable) :
    s.run (Effect.assign (.element a subs) e).perform = s.run (writeElement a is x.bits) := by
  rw [Effect.perform]
  exact (run_ask_ok h _).trans (run_ask_ok hsubs _)

/-- An assignment faults because its value or its subscripts do, or because of the place, if the value fits. -/
theorem assign_code (hx : ∀ x, e.eval s = .ok x → ∀ v : Variable, v.Fits x.bits) (target : Target) {f : Fault}
    (hf : (s.run (Effect.assign target e).perform).1 = .error f) : f.code ≠ .e275 := by
  cases heval : e.eval s with
  | error f' =>
    have hrun : s.run (Effect.assign target e).perform = (.error f', s) := by
      cases target <;> exact run_ask_error heval _
    rw [hrun] at hf
    cases hf
    exact Fault.code_of_ofExpr (Expr.eval_error heval)
  | ok x =>
    cases target with
    | scalar v =>
      rw [run_assign_scalar heval] at hf
      exact write_code (hx x heval v) hf
    | element a subs =>
      cases hsubs : Expr.evalAll s subs with
      | error f' =>
        have hrun : s.run (Effect.assign (.element a subs) e).perform = (.error f', s) :=
          (run_ask_ok heval _).trans (run_ask_error hsubs _)
        rw [hrun] at hf
        cases hf
        exact Fault.code_of_ofExpr (Expr.evalAll_error hsubs)
      | ok is =>
        rw [run_assign_element heval hsubs] at hf
        exact writeElement_code (hx x heval a) hf

theorem writeElement_of_within {g : Grid} {is : List Nat} (hv : v.kind.isArray = true) (hg : s.grid v = .ok g)
    (his : Grid.Within g.dimensions is) (hx : v.Fits x.bits) : (s.run (writeElement v is x.bits)).1 = .ok () := by
  cases hignored : (s.cell v).ignored with
  | true => exact writeElement_of_ignored hv hignored is x.bits
  | false =>
    obtain ⟨t, ht, -⟩ := run_writeElement hv hg hignored hx (Grid.offset?_of_within his)
    rw [ht]

/-- The width of a value can be told from the expression, and a short value fits 16 bits. Folding keeps to that, and so
do all expressions in a program. Therefore a short expression is never too wide for the place that it is assigned to:
a spot takes it if it has a value at all, and so does an element of a short array where there is such an element. -/
theorem width_soundness :
    (∀ (s : Store) (e : Expr) (x : Value), e.eval s = .ok x → x.wide = e.isWide) ∧
    (∀ (s : Store) (e : Expr) (x : Value), s.Reachable → e.Sound → e.eval s = .ok x → x.wide = false →
      x.bits.toNat ≤ 65535) ∧
    (∀ e : Expr, e.fold.result.isWide = e.isWide ∧ (e.Sound → e.fold.result.Sound)) ∧
    (∀ (source : List Char) (st : Statement), st ∈ Statement.parse source → ∀ e ∈ st.body.exprs, e.Sound) ∧
    ∀ (s : Store) (e : Expr), s.Reachable → e.Sound → e.isWide = false →
      (∀ target f, (s.run (Effect.assign target e).perform).1 = .error f → f.code ≠ .e275) ∧
      (∀ v x, v.kind = .spot → e.eval s = .ok x → (s.run (Effect.assign (.scalar v) e).perform).1 = .ok ()) ∧
      ∀ a subs g is x, a.kind = .tail → e.eval s = .ok x → Expr.evalAll s subs = .ok is → s.grid a = .ok g →
        Grid.Within g.dimensions is → (s.run (Effect.assign (.element a subs) e).perform).1 = .ok () := by
  have hvalue {s : Store} {e : Expr} {x : Value} (hs : s.Reachable) (he : e.Sound) (h : e.eval s = .ok x) : x.Sound :=
    Expr.eval_sound hs.sound hs.kinded he h
  refine ⟨fun s e x ↦ e.eval_wide, fun s e x ↦ hvalue, fun e ↦ ⟨e.isWide_fold, e.sound_fold⟩,
    fun source st ↦ Statement.parse_sound, fun s e hs he hwide ↦ ?_⟩
  have hfits (x : Value) (hx : e.eval s = .ok x) (v : Variable) : v.Fits x.bits :=
    fun _ ↦ hvalue hs he hx ((e.eval_wide hx).trans hwide)
  refine ⟨fun target f ↦ assign_code hfits target, fun v x hv hx ↦ ?_, fun a subs g is x ha hx hsubs hg his ↦ ?_⟩
  · obtain ⟨t, ht, -⟩ := run_write_of_fits (by rw [hv]; rfl) (hfits x hx v) s
    rw [run_assign_scalar hx, ht]
  · rw [run_assign_element hx hsubs]
    exact writeElement_of_within (by rw [ha]; rfl) hg his (hfits x hx a)

/-- All bits of a two-spot under a short mask go into a spot. -/
theorem width_soundness_masked :
    let s := (serve {} [.write (.twoSpot 1) 4294967295]).2
    let e : Expr := .select (.var (.twoSpot 1)) (.constant 65535 false)
    s.Reachable ∧ e.Sound ∧ e.isWide = false ∧ e.eval s = .ok ⟨65535, false⟩ ∧
      (s.run (Effect.assign (.scalar (.spot 1)) e).perform).1 = .ok () := by
  intro s e
  have hs : s.Reachable := ⟨[], ⟨0, 0⟩, _, rfl⟩
  have he : e.Sound := .select (.var _) (.constant fun _ ↦ by decide)
  have heval : e.eval s = .ok ⟨65535, false⟩ := by decide
  obtain ⟨-, -, -, -, hassign⟩ := width_soundness
  obtain ⟨-, hspot, -⟩ := hassign s e hs he rfl
  exact ⟨hs, he, rfl, heval, hspot (.spot 1) _ rfl heval⟩

end Store

end Intercal
