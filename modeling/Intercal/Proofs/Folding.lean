import Intercal.Chunk.Lower
import Intercal.Proofs.Lockstep

namespace Intercal

namespace Expr

variable (s : Store)

/-- What an operator is replaced by is its value, whatever the store. -/
theorem eval_of_reduce? {e : Expr} {v : Value} (h : reduce? e = some v) : e.eval s = .ok v := by
  cases e with
  | unary op e =>
    cases e with
    | constant n wide =>
      simp only [reduce?, constant?, Option.map_some, Option.some.injEq] at h
      subst h
      rfl
    | _ => simp [reduce?, constant?] at h
  | mingle l r =>
    cases l with
    | constant n wide =>
      cases r with
      | constant k wide' =>
        simp only [reduce?, constant?, Option.map_eq_some_iff] at h
        obtain ⟨w, hw, rfl⟩ := h
        have hm : Bits.mingle n k = .ok w := by simp only [Bits.mingle, hw]
        change (do return (⟨← Bits.mingle n k, true⟩ : Value)) = _
        rw [hm]
        rfl
      | _ => simp [reduce?, constant?] at h
    | _ => simp [reduce?, constant?] at h
  | select l r =>
    cases l with
    | constant n wide =>
      cases r with
      | constant k wide' =>
        simp only [reduce?, constant?, Option.some.injEq] at h
        subst h
        rfl
      | _ => simp [reduce?, constant?] at h
    | _ => simp [reduce?, constant?] at h
  | _ => simp [reduce?] at h

theorem eval_reduce (x : Folded Expr) : (reduce x).result.eval s = x.result.eval s := by
  unfold reduce
  cases hx : reduce? x.result with
  | some v => exact (eval_of_reduce? s hx).symm
  | none => rfl

mutual

/-- Folding an expression keeps its value, or the fault that it raises. -/
theorem eval_fold : (e : Expr) → e.fold.result.eval s = e.eval s
  | .constant n wide => eval_reduce s (.none (.constant n wide))
  | .var v => eval_reduce s (.none (.var v))
  | .array v => eval_reduce s (.none (.array v))
  | .element a subs => by
    have hsubs := evalAll_foldAll subs
    rw [fold, eval_reduce]
    simp only [Folded.map, eval, hsubs]
  | .unary op e => by
    have he := eval_fold e
    rw [fold, eval_reduce]
    simp only [Folded.map, eval, he]
  | .mingle l r => by
    have hl := eval_fold l
    have hr := eval_fold r
    rw [fold, eval_reduce]
    simp only [Folded.map, Folded.both, eval, hl, hr]
  | .select l r => by
    have hl := eval_fold l
    have hr := eval_fold r
    rw [fold, eval_reduce]
    simp only [Folded.map, Folded.both, eval, hl, hr]

theorem evalAll_foldAll : (es : List Expr) → evalAll s (foldAll es).result = evalAll s es
  | [] => rfl
  | e :: es => by
    have he := eval_fold e
    have hes := evalAll_foldAll es
    simp only [foldAll, Folded.map, Folded.both, evalAll, he, hes]

end

theorem value_fold (e : Expr) : e.fold.result.value = e.value := by
  funext s
  simp only [value, eval_fold]

theorem values_foldAll (es : List Expr) : values (foldAll es).result = values es := by
  funext s
  simp only [values, evalAll_foldAll]

/-- Folding neither makes nor unmakes a bare array. -/
theorem fold_ne_array {e : Expr} (h : ∀ v, e ≠ .array v) (v : Variable) : e.fold.result ≠ .array v := by
  have hreduce (x : Folded Expr) (hx : x.result ≠ .array v) : (reduce x).result ≠ .array v := by
    unfold reduce
    split
    · simp [ofValue]
    · exact hx
  cases e with
  | array w => exact absurd rfl (h w)
  | constant n wide => exact hreduce _ (by simp [Folded.none])
  | var w => exact hreduce _ (by simp [Folded.none])
  | element a subs => rw [fold]; exact hreduce _ (by simp [Folded.map])
  | unary op e => rw [fold]; exact hreduce _ (by simp [Folded.map])
  | mingle l r => rw [fold]; exact hreduce _ (by simp [Folded.map])
  | select l r => rw [fold]; exact hreduce _ (by simp [Folded.map])

end Expr

namespace Effect

def readItem : Expr → Action Unit
  | .array v => Store.readOutArray v
  | e => do Store.readOut (← e.value).bits

theorem perform_readOut (items : List Expr) : (readOut items).perform = items.forM readItem := rfl

theorem readItem_of_ne_array {e : Expr} (h : ∀ v, e ≠ .array v) :
    readItem e = (do Store.readOut (← e.value).bits) := by
  cases e with
  | array v => exact absurd rfl (h v)
  | _ => rfl

theorem readItem_fold (e : Expr) : readItem e.fold.result = readItem e := by
  by_cases h : ∃ v, e = .array v
  · obtain ⟨v, rfl⟩ := h
    rfl
  · have hne : ∀ v, e ≠ .array v := fun v hv ↦ h ⟨v, hv⟩
    rw [readItem_of_ne_array hne, readItem_of_ne_array (Expr.fold_ne_array hne), Expr.value_fold]

theorem readItems_foldAll (items : List Expr) :
    (Expr.foldAll items).result.forM readItem = items.forM readItem := by
  induction items with
  | nil => rfl
  | cons e items ih =>
    simp only [Expr.foldAll, Folded.map, Folded.both, List.forM, readItem_fold, ih]

theorem perform_fold (e : Effect) : e.fold.result.perform = e.perform := by
  cases e with
  | assign target value =>
    cases target with
    | scalar v =>
      simp only [fold, Target.fold, Folded.map, Folded.both, Folded.none, perform, Expr.value_fold]
    | element a subs =>
      simp only [fold, Target.fold, Folded.map, Folded.both, perform, Expr.value_fold, Expr.values_foldAll]
  | redimension a dims => simp only [fold, Folded.map, perform, Expr.values_foldAll]
  | readOut items => simp only [fold, Folded.map, perform_readOut, readItems_foldAll]
  | _ => rfl

end Effect

def Part.fold (p : Part) : Part := { p with chunk := p.chunk.fold.result }

namespace Machine

variable (m : Machine) (number : Nat)

def foldPart : Machine := { m with parts := m.parts.modify number Part.fold }

theorem part_foldPart (j : Nat) :
    (m.foldPart number).part j = m.part j ∨ (m.foldPart number).part j = (m.part j).fold := by
  simp only [part, foldPart, Array.getD_eq_getD_getElem?, Array.getElem?_modify]
  split
  · cases m.parts[j]? with
    | none => exact .inl rfl
    | some p => exact .inr rfl
  · exact .inl rfl

theorem akin_foldPart : Akin (m.foldPart number) m where
  maxDepth := rfl
  name j := by rcases part_foldPart m number j with h | h <;> rw [h]; rfl
  entry? j l := by rcases part_foldPart m number j with h | h <;> rw [h]; rfl
  linkage j := by rcases part_foldPart m number j with h | h <;> rw [h]; rfl

theorem instruction?_foldPart (s : State) :
    (m.foldPart number).instruction? s = m.instruction? s ∨
      (m.foldPart number).instruction? s = (m.instruction? s).map fun i ↦ i.fold.result := by
  simp only [instruction?, chunk]
  rcases part_foldPart m number s.site.part with h | h
  · exact .inl (by rw [h])
  · refine .inr ?_
    rw [h]
    simp only [Part.fold, Chunk.fold, Array.getElem?_map, Option.map_map]
    rfl

/-- A folded instruction does what the original does. -/
theorem perform_fold (s : State) (line : Nat) (op : Op) : m.perform s line op.fold.result = m.perform s line op := by
  cases op with
  | effect e => simp only [Op.fold, Folded.map, perform, Effect.perform_fold]
  | resume e => simp only [Op.fold, Folded.map, perform, Expr.value_fold]
  | forget e => simp only [Op.fold, Folded.map, perform, Expr.value_fold]
  | _ => rfl

/-- Only the log can tell a folded instruction from the original. -/
theorem enterStatement_foldPart (s : State) :
    ((m.foldPart number).enterStatement s).1 = (m.enterStatement s).1 := by
  have hakin := akin_foldPart m number
  have hfold := instruction?_foldPart m number s
  cases h : m.instruction? s with
  | none =>
    have hi : (m.foldPart number).instruction? s = none := by simpa [h] using hfold
    rw [enterStatement_none h, enterStatement_none hi]
    simp only [chunk, hakin.name]
  | some i =>
    rw [h] at hfold
    rcases hfold with hi | hi <;> rw [enterStatement_some h, enterStatement_some hi]
    · simp only [hakin.perform_eq]
      rfl
    · simp only [Instruction.fold, Folded.map, hakin.perform_eq, perform_fold]
      rfl

theorem leaveStatement_foldPart (s : State) : (m.foldPart number).leaveStatement s = m.leaveStatement s := by
  have htrap : ((m.foldPart number).instruction? s).bind (·.trapdoor) =
      (m.instruction? s).bind (·.trapdoor) := by
    rcases instruction?_foldPart m number s with h | h <;> rw [h]
    cases m.instruction? s <;> rfl
  simp only [leaveStatement, htrap]
  rfl

theorem turn_foldPart : (m.foldPart number).turn = m.turn := by
  funext s
  simp only [turn, step]
  split
  · rw [leaveStatement_foldPart]
  · exact enterStatement_foldPart m number s

/-- A machine with a folded part takes the same steps: after any number of them it is in the same state, with the
same store, frames, switches and draws, or it has ended in the same way. -/
theorem run_foldPart (s : State) (events : Array Event) (n : Nat) :
    ((m.foldPart number).run events n s).1 = (m.run events n s).1 ∧
      ∀ (e : Expr) (store : Store), e.fold.result.eval store = e.eval store := by
  refine ⟨?_, fun e store ↦ e.eval_fold store⟩
  rw [run_fst, run_fst, turn_foldPart]

end Machine

end Intercal
