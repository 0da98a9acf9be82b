import Intercal.Expr.Fold

namespace Intercal.Expr

mutual

def inner : Expr → List Expr
  | .constant .. | .var _ | .array _ => []
  | .element _ subs => nodesAll subs
  | .unary _ e => e :: inner e
  | .mingle l r | .select l r => (l :: inner l) ++ (r :: inner r)

def nodesAll : List Expr → List Expr
  | [] => []
  | e :: es => (e :: inner e) ++ nodesAll es

end

def nodes (e : Expr) : List Expr := e :: e.inner

def isOperator : Expr → Bool
  | .unary .. | .mingle .. | .select .. => true
  | .constant .. | .var _ | .element .. | .array _ => false

def operators (es : List Expr) : Nat := es.countP isOperator

/-- The node is no operator that could be replaced by its value: if both operands of a mingle are constants, one of them
needs more than 16 bits. -/
structure Stuck (d : Expr) : Prop where
  unary (op : UnaryOp) (n : Word) (wide : Bool) : d ≠ .unary op (.constant n wide)
  select (m n : Word) (wide wide' : Bool) : d ≠ .select (.constant m wide) (.constant n wide')
  mingle (m n : Word) (wide wide' : Bool) (h : d = .mingle (.constant m wide) (.constant n wide')) :
    65535 < m.toNat ∨ 65535 < n.toNat

theorem operators_append (es fs : List Expr) : operators (es ++ fs) = operators es + operators fs := List.countP_append

theorem operators_nodes (e : Expr) : operators e.nodes = operators e.inner + if e.isOperator then 1 else 0 :=
  List.countP_cons

theorem operators_unary (op : UnaryOp) (e : Expr) : operators (nodes (.unary op e)) = operators e.nodes + 1 := by
  rw [operators_nodes, inner]
  rfl

theorem operators_mingle (l r : Expr) :
    operators (nodes (.mingle l r)) = operators l.nodes + operators r.nodes + 1 := by
  rw [operators_nodes, inner, operators_append]
  rfl

theorem operators_select (l r : Expr) :
    operators (nodes (.select l r)) = operators l.nodes + operators r.nodes + 1 := by
  rw [operators_nodes, inner, operators_append]
  rfl

section Node

variable {d l r : Expr}

theorem constant?_eq_some {v : Value} (h : d.constant? = some v) : d = .constant v.bits v.wide := by
  cases d with
  | constant n wide =>
    cases h
    rfl
  | _ => cases h

theorem Stuck.of_not_operator (h : d.isOperator = false) : d.Stuck where
  unary op n wide hd := by
    rw [hd] at h
    cases h
  select m n wide wide' hd := by
    rw [hd] at h
    cases h
  mingle m n wide wide' hd := by
    rw [hd] at h
    cases h

theorem stuck_unary {op : UnaryOp} : (Expr.unary op d).Stuck ↔ d.constant? = none := by
  constructor
  · intro h
    cases hd : d.constant? with
    | none => rfl
    | some v => exact absurd (congrArg (Expr.unary op) (constant?_eq_some hd)) (h.unary op _ _)
  · intro h
    refine ⟨fun op n wide hd ↦ ?_, nofun, nofun⟩
    cases hd
    cases h

theorem stuck_select :
    (Expr.select l r).Stuck ↔ ∀ v w, l.constant? = some v → r.constant? ≠ some w := by
  constructor
  · intro h v w hl hr
    apply h.select v.bits w.bits v.wide w.wide
    rw [constant?_eq_some hl, constant?_eq_some hr]
  · intro h
    refine ⟨nofun, fun m n wide wide' hd ↦ ?_, nofun⟩
    cases hd
    exact h _ _ rfl rfl

theorem mingle?_eq_none {m n : Word} : Bits.mingle? m n = none ↔ 65535 < m.toNat ∨ 65535 < n.toNat := by
  unfold Bits.mingle?
  split <;> simp <;> omega

theorem stuck_mingle :
    (Expr.mingle l r).Stuck ↔
      ∀ v w, l.constant? = some v → r.constant? = some w → Bits.mingle? v.bits w.bits = none := by
  constructor
  · intro h v w hl hr
    apply mingle?_eq_none.mpr
    apply h.mingle v.bits w.bits v.wide w.wide
    rw [constant?_eq_some hl, constant?_eq_some hr]
  · intro h
    refine ⟨nofun, nofun, fun m n wide wide' hd ↦ ?_⟩
    cases hd
    exact mingle?_eq_none.mp (h _ _ rfl rfl)

/-- Once its operands are folded, a node is left as it is just if it is stuck. -/
theorem reduce?_eq_none : reduce? d = none ↔ d.Stuck := by
  cases d with
  | unary op e => rw [stuck_unary, reduce?, Option.map_eq_none_iff]
  | select l r =>
    rw [stuck_select, reduce?]
    cases l.constant? <;> cases r.constant? <;> simp
  | mingle l r =>
    rw [stuck_mingle, reduce?]
    cases l.constant? <;> cases r.constant? <;> simp
  | constant | var | array | element => exact iff_of_true rfl (.of_not_operator rfl)

theorem operators_constant {v : Value} (h : d.constant? = some v) : operators d.nodes = 0 := by
  rw [constant?_eq_some h, operators_nodes, inner]
  rfl

/-- A node that is replaced is the only operator of its expression. -/
theorem operators_of_reduce? {v : Value} (h : reduce? d = some v) : operators d.nodes = 1 := by
  cases d with
  | unary op e =>
    obtain ⟨x, he, -⟩ := Option.map_eq_some_iff.mp h
    rw [operators_unary, operators_constant he]
  | select l r =>
    rw [reduce?] at h
    split at h
    · next hl hr => rw [operators_select, operators_constant hl, operators_constant hr]
    · cases h
  | mingle l r =>
    rw [reduce?] at h
    split at h
    · next hl hr => rw [operators_mingle, operators_constant hl, operators_constant hr]
    · cases h
  | constant | var | array | element => cases h

end Node

structure Settles {α : Type} (before after : List Expr) (x : Folded α) : Prop where
  stuck : ∀ d ∈ after, d.Stuck
  visited : x.visited = before.length
  folded : x.folded + operators after = operators before

namespace Settles

variable {α β : Type} {before after before' after' : List Expr} {x : Folded α} {y : Folded β}

theorem none (a : α) : Settles [] [] (Folded.none a) := ⟨nofun, rfl, rfl⟩

theorem map (h : Settles before after x) (f : α → β) : Settles before after (x.map f) := ⟨h.stuck, h.visited, h.folded⟩

theorem both (hx : Settles before after x) (hy : Settles before' after' y) :
    Settles (before ++ before') (after ++ after') (x.both y) where
  stuck := List.forall_mem_append.mpr ⟨hx.stuck, hy.stuck⟩
  visited := by
    rw [List.length_append, ← hx.visited, ← hy.visited]
    rfl
  folded := by
    have hleft := hx.folded
    have hright := hy.folded
    have hsum : (x.both y).folded = x.folded + y.folded := rfl
    rw [operators_append, operators_append, hsum]
    omega

/-- The root is visited after its operands. If it is replaced, no other operator is left to be lost with it. -/
theorem reduce {e : Expr} {x : Folded Expr} (h : Settles e.inner x.result.inner x)
    (hroot : x.result.isOperator = e.isOperator) : Settles e.nodes (reduce x).result.nodes (reduce x) := by
  have hfolded : x.folded + operators x.result.nodes = operators e.nodes := by
    have hinner := h.folded
    rw [operators_nodes, operators_nodes, hroot]
    omega
  have hvisited : x.visited + 1 = e.nodes.length := by rw [h.visited, nodes, List.length_cons]
  unfold Expr.reduce
  split
  · next v hsome =>
    refine ⟨?_, hvisited, ?_⟩
    · intro d hd
      rw [ofValue, nodes, inner, List.mem_singleton] at hd
      rw [hd]
      exact .of_not_operator rfl
    · rw [← hfolded, operators_of_reduce? hsome, operators_constant (v := v) rfl]
  · next hnone => exact ⟨List.forall_mem_cons.mpr ⟨reduce?_eq_none.mp hnone, h.stuck⟩, hvisited, hfolded⟩

end Settles

mutual

theorem settles_fold : (e : Expr) → Settles e.nodes e.fold.result.nodes e.fold
  | .constant n wide => by
    rw [fold]
    exact .reduce (.none _) rfl
  | .var v => .reduce (.none _) rfl
  | .array v => .reduce (.none _) rfl
  | .element a subs => by
    rw [fold]
    exact .reduce ((settles_foldAll subs).map _) rfl
  | .unary op e => .reduce ((settles_fold e).map _) rfl
  | .mingle l r => .reduce (((settles_fold l).both (settles_fold r)).map _) rfl
  | .select l r => .reduce (((settles_fold l).both (settles_fold r)).map _) rfl

theorem settles_foldAll : (es : List Expr) → Settles (nodesAll es) (nodesAll (foldAll es).result) (foldAll es)
  | [] => .none []
  | e :: es => ((settles_fold e).both (settles_foldAll es)).map _

end

theorem reduce_of_stuck {e : Expr} {x : Folded Expr} (hx : x.result = e) (he : e.Stuck) : (reduce x).result = e := by
  rw [← hx] at he
  rw [reduce, reduce?_eq_none.mpr he]
  exact hx

mutual

theorem fold_of_stuck : (e : Expr) → (∀ d ∈ e.nodes, d.Stuck) → e.fold.result = e
  | .constant n wide, h => by
    rw [fold]
    exact reduce_of_stuck rfl (h _ List.mem_cons_self)
  | .var v, h => reduce_of_stuck rfl (h _ List.mem_cons_self)
  | .array v, h => reduce_of_stuck rfl (h _ List.mem_cons_self)
  | .element a subs, h => by
    obtain ⟨hroot, hsubs⟩ := List.forall_mem_cons.mp h
    rw [fold]
    exact reduce_of_stuck (congrArg (element a) (foldAll_of_stuck subs hsubs)) hroot
  | .unary op e, h => by
    obtain ⟨hroot, he⟩ := List.forall_mem_cons.mp h
    exact reduce_of_stuck (congrArg (unary op) (fold_of_stuck e he)) hroot
  | .mingle l r, h => by
    obtain ⟨hroot, hinner⟩ := List.forall_mem_cons.mp h
    obtain ⟨hl, hr⟩ := List.forall_mem_append.mp hinner
    exact reduce_of_stuck (congr (congrArg mingle (fold_of_stuck l hl)) (fold_of_stuck r hr)) hroot
  | .select l r, h => by
    obtain ⟨hroot, hinner⟩ := List.forall_mem_cons.mp h
    obtain ⟨hl, hr⟩ := List.forall_mem_append.mp hinner
    exact reduce_of_stuck (congr (congrArg select (fold_of_stuck l hl)) (fold_of_stuck r hr)) hroot

theorem foldAll_of_stuck : (es : List Expr) → (∀ d ∈ nodesAll es, d.Stuck) → (foldAll es).result = es
  | [], _ => rfl
  | e :: es, h => by
    obtain ⟨he, hes⟩ := List.forall_mem_append.mp h
    exact congr (congrArg List.cons (fold_of_stuck e he)) (foldAll_of_stuck es hes)

end

/-- A folded expression has no node left that could be folded, and to fold it once more changes and counts nothing. The
nodes visited are all nodes of the expression, and those folded are the operators that it has lost. An expression is
left as it is just if it had nothing to fold. -/
theorem folding_settles (e : Expr) :
    (∀ d ∈ e.fold.result.nodes, d.Stuck) ∧
      e.fold.result.fold.result = e.fold.result ∧ e.fold.result.fold.folded = 0 ∧
      e.fold.visited = e.nodes.length ∧
      e.fold.folded + operators e.fold.result.nodes = operators e.nodes ∧
      (e.fold.result = e ↔ ∀ d ∈ e.nodes, d.Stuck) := by
  have hsettles := settles_fold e
  have hagain := fold_of_stuck e.fold.result hsettles.stuck
  have hcount := (settles_fold e.fold.result).folded
  refine ⟨hsettles.stuck, hagain, ?_, hsettles.visited, hsettles.folded, ?_, fold_of_stuck e⟩
  · rw [hagain] at hcount
    omega
  · intro hsame
    rw [← hsame]
    exact hsettles.stuck

/-- A mingle whose value is too wide for the next one keeps that from being folded, but not the subscript beside it. -/
example :
    let wide := mingle (constant 65535 false) (constant 65535 false)
    let masked := select (constant 3 false) (constant 2 false)
    let e := element ⟨.tail, 1⟩ [mingle wide (constant 1 false), unary .and masked]
    (e.fold.folded, e.fold.visited, operators e.nodes, operators e.fold.result.nodes) = (3, 10, 4, 1) := by
  decide

end Intercal.Expr
