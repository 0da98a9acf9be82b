import Intercal.Proofs.Touches

namespace Intercal

namespace Store

variable {s t : Store} {v : Variable} {c : Change} {x : Content}

def Frozen (v : Variable) (x : Content) (s : Store) : Prop := (s.cell v).ignored = true ∧ (s.cell v).value = x

theorem cell_ignore (s : Store) (v : Variable) : (s.run (ignore v)).2.cell v = { s.cell v with ignored := true } := by
  unfold run ignore cell
  split <;> rw [Bank.ignore, Bank.cell_insert_self] <;> rfl

theorem frozen_ignore (s : Store) (v : Variable) : (s.run (ignore v)).2.Frozen v (s.cell v).value := by
  rw [Frozen, cell_ignore]
  exact ⟨rfl, rfl⟩

/-- No change other than to remember the variable lets go of the value in an ignored cell. -/
theorem Change.Turns.ignored {α : Type} {a b : Cell α} (h : c.Turns a b) (hc : c ≠ .remember c.subject)
    (ha : a.ignored = true) : b.ignored = true ∧ b.value = a.value := by
  cases c with
  | write | writeElement | redimension =>
    obtain ⟨hignored, -, hvalue⟩ := h
    exact ⟨hignored.trans ha, hvalue ha⟩
  | stash w =>
    rw [h]
    exact ⟨ha, rfl⟩
  | retrieve w =>
    obtain ⟨last, older, -, rfl⟩ := h
    exact ⟨ha, if_pos ha⟩
  | ignore w =>
    rw [h]
    exact ⟨rfl, rfl⟩
  | remember w => exact absurd rfl hc

theorem Change.frozen (hc : c ≠ .remember v) (hs : s.Frozen v x) : (s.run c.act).2.Frozen v x := by
  rcases (act_replaces c s).cell v with hcell | ⟨rfl, hturns⟩
  · rwa [Frozen, hcell]
  · obtain ⟨hignored, hvalue⟩ := hturns.ignored hc hs.1
    exact ⟨hignored, hvalue.trans hs.2⟩

namespace Request

variable {r : Request}

theorem Causes.eq_remember (h : r.Causes (.remember v)) : r = .remember v := by
  cases r with
  | remember w =>
    cases h
    rfl
  | writeIn w => rcases h with ⟨y, h⟩ | ⟨subscripts, y, h⟩ <;> cases h
  | call routine =>
    obtain ⟨w, -, y, h⟩ := h
    cases h
  | _ => cases h

theorem frozen_serve (hr : r ≠ .remember v) (hs : s.Frozen v x) : (s.run r.serve).2.Frozen v x := by
  have hdetached := detached_cell v fun c ↦ c.ignored = true ∧ c.value = x
  have hcauses (c : Change) (hc : r.Causes c) : c ≠ .remember v := by
    rintro rfl
    exact hr hc.eq_remember
  exact (hdetached.request (fun _ ↦ trivial) fun c hc t ht ↦ ⟨c.frozen (hcauses c hc) ht, fun _ _ ↦ trivial⟩) s hs |>.1

end Request

theorem frozen_session {rs : List Request} (hrs : .remember v ∉ rs) (hs : s.Frozen v x) :
    (serve s rs).2.Frozen v x := by
  induction rs generalizing s with
  | nil => exact hs
  | cons r rs ih =>
    rw [List.mem_cons, not_or] at hrs
    exact ih hrs.2 (Request.frozen_serve (Ne.symm hrs.1) hs)

theorem write_of_ignored (hv : v.kind.isArray = false) (hs : (s.cell v).ignored = true) (y : Word) :
    (s.run (write v y)).1 = .ok () := by
  rw [cell, hv, if_neg Bool.false_ne_true] at hs
  have hcell : (s.scalars.cell v).ignored = true := hs
  simp only [run, write, hv, Bool.false_eq_true, if_false, hcell, if_true]

theorem writeElement_of_ignored (hv : v.kind.isArray = true) (hs : (s.cell v).ignored = true) (subscripts : List Nat)
    (y : Word) : (s.run (writeElement v subscripts y)).1 = .ok () := by
  rw [cell, if_pos hv] at hs
  cases hget : s.arrays.get? v with
  | none =>
    rw [Bank.cell, hget] at hs
    cases hs
  | some c =>
    have hcell : c.ignored = true := by rwa [Bank.cell_eq_of_get? _ hget] at hs
    simp only [run, writeElement, hget, hcell, if_true]

theorem retrieve_of_history (h : (s.cell v).history ≠ []) : (s.run (retrieve v)).1 = .ok () := by
  obtain ⟨last, older, hhistory⟩ := List.exists_cons_of_ne_nil h
  obtain ⟨t, ht, -⟩ := run_retrieve_of_cons hhistory
  rw [ht]

/-- Once ignored, a variable keeps its value until it is remembered, whatever else is asked. No number is too wide for
it and no subscript out of range meanwhile, and what was stashed can be retrieved, to no effect. -/
theorem ignored_frozen (s : Store) (v : Variable) (rs : List Request) (hrs : .remember v ∉ rs) :
    let ignored := (s.run (ignore v)).2
    let later := (serve ignored rs).2
    (later.cell v).value = (ignored.cell v).value ∧ later.read v = ignored.read v ∧
      (v.kind.isArray = true → later.grid v = ignored.grid v ∧
        ∀ subscripts, later.readElement v subscripts = ignored.readElement v subscripts) ∧
      (∀ y, (later.run (write v y)).1 = if v.kind.isArray then .error (.hyperspace v) else .ok ()) ∧
      (v.kind.isArray = true → ∀ subscripts y, (later.run (writeElement v subscripts y)).1 = .ok ()) ∧
      ((later.cell v).history ≠ [] → (later.run (retrieve v)).1 = .ok ()) := by
  intro ignored later
  obtain ⟨hlater, hvalue⟩ := frozen_session hrs (frozen_ignore s v)
  have hsame : (later.cell v).value = (ignored.cell v).value := hvalue.trans (frozen_ignore s v).2.symm
  have hgrid (hv : v.kind.isArray = true) : later.grid v = ignored.grid v := grid_eq_of_value hv hsame
  refine ⟨hsame, ?_, fun hv ↦ ⟨hgrid hv, fun is ↦ by rw [readElement, readElement, hgrid hv]⟩, fun y ↦ ?_,
    fun hv ↦ writeElement_of_ignored hv hlater, retrieve_of_history⟩
  · cases hv : v.kind.isArray with
    | true => exact read_eq_of_value (.inl hv) hsame
    | false =>
      have hknown : ignored.Known v := Change.known (c := .ignore v) hv (decide_eq_true rfl) s
      exact read_eq_of_value (.inr ⟨hknown, (steady_known v).serve (fun _ ↦ trivial) rs hknown⟩) hsame
  · cases hv : v.kind.isArray with
    | true => rw [run, write, if_pos hv, if_pos rfl]
    | false => exact write_of_ignored hv hlater y

/-- A scalar that is written, retrieved, read in and incremented while it is ignored. -/
theorem ignored_frozen_beset :
    let v : Variable := .spot 1
    let s := (serve { input := [57, 10] } [.write v 5, .stash v, .write v 6]).2
    let rs := [.write v 7, .retrieve v, .stash v, .writeIn v, .call 1020, .write v 70000, .remember (.spot 2)]
    let later := (serve (s.run (ignore v)).2 rs).2
    .remember v ∉ rs ∧ later.read v = .ok 6 ∧ (later.run (write v 70000)).1 = .ok () ∧
      (later.run (retrieve v)).1 = .ok () := by
  intro v s rs later
  have hrs : .remember v ∉ rs := by simp [rs, v, Variable.spot]
  obtain ⟨-, hread, -, hwrite, -, hretrieve⟩ := ignored_frozen s v rs hrs
  exact ⟨hrs, hread, hwrite 70000, hretrieve (by decide)⟩

end Store

end Intercal
