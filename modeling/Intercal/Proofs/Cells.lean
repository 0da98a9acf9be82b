import Intercal.Proofs.Upkeep

namespace Intercal

namespace Table

variable {κ α : Type} [DecidableEq κ]

theorem put_put (k : κ) (a b : α) (es : List (κ × α)) : put k b (put k a es) = put k b es := by
  induction es with
  | nil => simp [put]
  | cons e es ih =>
    obtain ⟨k', a'⟩ := e
    by_cases h : k' = k <;> simp [put, h, ih]

theorem insert_insert (t : Table κ α) (k : κ) (a b : α) : (t.insert k a).insert k b = t.insert k b :=
  congrArg Table.mk (put_put k a b t.entries)

end Table

namespace Bank

variable {α : Type} [Inhabited α] (b : Bank α) {v : Variable}

theorem cell_eq_of_get? {c : Cell α} (h : b.get? v = some c) : b.cell v = c := by
  rw [cell, h]
  rfl

theorem cell_insert_self (v : Variable) (c : Cell α) : Bank.cell (b.insert v c) v = c :=
  cell_eq_of_get? _ (Table.get?_insert_self b v c)

theorem insert_touch (v : Variable) (c : Cell α) : (b.touch v).insert v c = b.insert v c :=
  Table.insert_insert b v _ c

end Bank

inductive Content where
  | number (x : Word)
  | array (g : Option Grid)

def Content.grid? : Content → Option Grid
  | .number _ => none
  | .array g => g

def Cell.map {α β : Type} (f : α → β) (c : Cell α) : Cell β := ⟨f c.value, c.ignored, c.history.map f⟩

namespace Store

variable {s t : Store} {v w : Variable} {c : Change}

def cell (s : Store) (v : Variable) : Cell Content :=
  if v.kind.isArray then (s.arrays.cell v).map .array else (s.scalars.cell v).map .number

theorem ignored_scalar (hv : v.kind.isArray = false) (s : Store) : (s.cell v).ignored = (s.scalars.cell v).ignored := by
  rw [cell, hv, if_neg Bool.false_ne_true]
  rfl

theorem ignored_array (hv : v.kind.isArray = true) (s : Store) : (s.cell v).ignored = (s.arrays.cell v).ignored := by
  rw [cell, if_pos hv]
  rfl

theorem cell_of_banks (hscalars : t.scalars = s.scalars) (harrays : t.arrays = s.arrays) (v : Variable) :
    t.cell v = s.cell v := by
  simp only [cell, hscalars, harrays]

theorem detached_cell (v : Variable) (P : Cell Content → Prop) : Detached (fun s ↦ P (s.cell v)) fun _ ↦ True :=
  ⟨fun hscalars harrays h ↦ by rwa [cell_of_banks hscalars harrays], fun _ ↦ trivial⟩

def Change.Turns {α : Type} : Change → Cell α → Cell α → Prop
  | .write .., c, d | .writeElement .., c, d | .redimension .., c, d =>
    d.ignored = c.ignored ∧ d.history = c.history ∧ (c.ignored = true → d.value = c.value)
  | .stash _, c, d => d = { c with history := c.value :: c.history }
  | .retrieve _, c, d =>
    ∃ last older, c.history = last :: older ∧ d = ⟨if c.ignored then c.value else last, c.ignored, older⟩
  | .ignore _, c, d => d = { c with ignored := true }
  | .remember _, c, d => d = { c with ignored := false }

theorem Change.Turns.map {α β : Type} (f : α → β) {a b : Cell α} (h : c.Turns a b) : c.Turns (a.map f) (b.map f) := by
  cases c with
  | write | writeElement | redimension =>
    obtain ⟨hignored, hhistory, hvalue⟩ := h
    exact ⟨hignored, congrArg (List.map f) hhistory, fun h ↦ congrArg f (hvalue h)⟩
  | retrieve v =>
    obtain ⟨value, ignored, history⟩ := a
    obtain ⟨last, older, rfl, rfl⟩ := h
    refine ⟨f last, older.map f, rfl, ?_⟩
    cases ignored <;> rfl
  | stash | ignore | remember =>
    cases h
    rfl

/-- A change leaves the store as it is, or replaces the cell of its variable in one of the banks. -/
inductive Change.Replaces (c : Change) (s : Store) : Store → Prop
  | none : Replaces c s s
  | scalar {d : Cell Word} (turns : c.Turns (s.scalars.cell c.subject) d) :
      Replaces c s { s with scalars := s.scalars.insert c.subject d }
  | array {d : Cell (Option Grid)} (turns : c.Turns (s.arrays.cell c.subject) d) :
      Replaces c s { s with arrays := s.arrays.insert c.subject d }

section Act

variable (s v)

theorem write_replaces (x : Word) : (Change.write v x).Replaces s (s.run (write v x)).2 := by
  unfold run write
  split
  · exact .none
  · dsimp only
    split
    · exact .scalar ⟨rfl, rfl, fun _ ↦ rfl⟩
    · next hignored =>
      split
      · exact .scalar ⟨rfl, rfl, fun _ ↦ rfl⟩
      · rw [Bank.insert_touch]
        exact .scalar ⟨rfl, rfl, fun h ↦ absurd h hignored⟩

theorem writeElement_replaces (subscripts : List Nat) (x : Word) :
    (Change.writeElement v subscripts x).Replaces s (s.run (writeElement v subscripts x)).2 := by
  unfold run writeElement
  split
  · exact .none
  · next c hget =>
    have hcell : s.arrays.cell v = c := Bank.cell_eq_of_get? _ hget
    split
    · exact .none
    · next hignored =>
      split
      · exact .none
      · split
        · exact .none
        · split
          · exact .none
          · exact .array (by rw [Change.subject, hcell]; exact ⟨rfl, rfl, fun h ↦ absurd h hignored⟩)

theorem redimension_replaces (dimensions : List Nat) :
    (Change.redimension v dimensions).Replaces s (s.run (redimension v dimensions)).2 := by
  unfold run redimension
  split
  · exact .none
  · split
    · exact .none
    · split
      · exact .none
      · dsimp only
        split
        · exact .array ⟨rfl, rfl, fun _ ↦ rfl⟩
        · next hignored =>
          split
          · exact .array ⟨rfl, rfl, fun _ ↦ rfl⟩
          · rw [Bank.insert_touch]
            exact .array ⟨rfl, rfl, fun h ↦ absurd h hignored⟩

theorem retrieve?_turns {α : Type} [Inhabited α] {b b' : Bank α} (h : b.retrieve? v = some b') :
    ∃ d, b' = b.insert v d ∧ (Change.retrieve v).Turns (b.cell v) d := by
  unfold Bank.retrieve? at h
  split at h
  · next hget =>
    cases h
    refine ⟨_, rfl, ?_⟩
    rw [Bank.cell_eq_of_get? b hget]
    exact ⟨_, _, rfl, rfl⟩
  · cases h

theorem retrieve_replaces : (Change.retrieve v).Replaces s (s.run (retrieve v)).2 := by
  unfold run retrieve
  split <;> split
  · next hretrieve =>
    obtain ⟨d, rfl, hturns⟩ := retrieve?_turns v hretrieve
    exact .array hturns
  · exact .none
  · next hretrieve =>
    obtain ⟨d, rfl, hturns⟩ := retrieve?_turns v hretrieve
    exact .scalar hturns
  · exact .none

theorem remember_replaces : (Change.remember v).Replaces s (s.run (remember v)).2 := by
  unfold run remember Bank.remember
  split <;> dsimp only <;> split
  · next hget => exact .array (by rw [Change.subject, Bank.cell_eq_of_get? _ hget]; rfl)
  · exact .none
  · next hget => exact .scalar (by rw [Change.subject, Bank.cell_eq_of_get? _ hget]; rfl)
  · exact .none

theorem stash_replaces : (Change.stash v).Replaces s (s.run (stash v)).2 := by
  unfold run stash
  split
  · exact .array rfl
  · exact .scalar rfl

theorem ignore_replaces : (Change.ignore v).Replaces s (s.run (ignore v)).2 := by
  unfold run ignore
  split
  · exact .array rfl
  · exact .scalar rfl

end Act

theorem act_replaces (c : Change) (s : Store) : c.Replaces s (s.run c.act).2 := by
  cases c with
  | write v x => exact write_replaces s v x
  | writeElement v subscripts x => exact writeElement_replaces s v subscripts x
  | redimension v dimensions => exact redimension_replaces s v dimensions
  | stash v => exact stash_replaces s v
  | retrieve v => exact retrieve_replaces s v
  | ignore v => exact ignore_replaces s v
  | remember v => exact remember_replaces s v

namespace Change.Replaces

theorem get? (h : c.Replaces s t) (hv : c.subject ≠ v) :
    t.scalars.get? v = s.scalars.get? v ∧ t.arrays.get? v = s.arrays.get? v := by
  cases h with
  | none => exact ⟨rfl, rfl⟩
  | scalar => exact ⟨Table.get?_insert_of_ne s.scalars hv _, rfl⟩
  | array => exact ⟨rfl, Table.get?_insert_of_ne s.arrays hv _⟩

theorem cell (h : c.Replaces s t) (v : Variable) :
    t.cell v = s.cell v ∨ c.subject = v ∧ c.Turns (s.cell v) (t.cell v) := by
  by_cases hv : c.subject = v
  · subst hv
    unfold Store.cell
    cases h with
    | none => exact .inl rfl
    | scalar turns =>
      split
      · exact .inl rfl
      · exact .inr ⟨rfl, by rw [Bank.cell_insert_self]; exact turns.map _⟩
    | array turns =>
      split
      · exact .inr ⟨rfl, by rw [Bank.cell_insert_self]; exact turns.map _⟩
      · exact .inl rfl
  · obtain ⟨hscalars, harrays⟩ := h.get? hv
    exact .inl (by simp only [Store.cell, Bank.cell, hscalars, harrays])

end Change.Replaces

theorem run_done (s : Store) (a : Action Unit) : (s.run (Request.done a)).2 = (s.run a).2 := by
  rw [Request.done, run_bind]
  rcases s.run a with ⟨_ | _, t⟩ <;> rfl

/-- Only a request that causes a change of the variable can touch its cell. -/
theorem Request.get?_serve {r : Request} (hr : ∀ c, r.Causes c → c.subject ≠ v) (s : Store) :
    (s.run r.serve).2.scalars.get? v = s.scalars.get? v ∧ (s.run r.serve).2.arrays.get? v = s.arrays.get? v := by
  have hdetached : Detached (fun t ↦ t.scalars.get? v = s.scalars.get? v ∧ t.arrays.get? v = s.arrays.get? v)
      fun _ ↦ True :=
    ⟨fun hscalars harrays h ↦ by rwa [hscalars, harrays], fun _ ↦ trivial⟩
  refine (hdetached.request (fun _ ↦ trivial) fun c hc t ht ↦ ⟨?_, fun _ _ ↦ trivial⟩) s ⟨rfl, rfl⟩ |>.1
  obtain ⟨hscalars, harrays⟩ := (act_replaces c t).get? (hr c hc)
  exact ⟨hscalars.trans ht.1, harrays.trans ht.2⟩

def Known (v : Variable) (s : Store) : Prop := (s.scalars.get? v).isSome = true

theorem known_insert (s : Store) (b : Bank Word) (v : Variable) (d : Cell Word) :
    Known v { s with scalars := b.insert v d } := by
  rw [Known, Table.get?_insert_self]
  rfl

theorem Change.Replaces.known (h : c.Replaces s t) (hs : s.Known v) : t.Known v := by
  cases h with
  | none => exact hs
  | scalar =>
    by_cases hv : c.subject = v
    · subst hv
      exact known_insert s s.scalars c.subject _
    · rwa [Known, Table.get?_insert_of_ne s.scalars hv]
  | array => exact hs

theorem steady_known (v : Variable) : Steady (Known v) fun _ ↦ True :=
  .of_act ⟨fun hscalars _ hs ↦ by rwa [Known, hscalars], fun _ ↦ trivial⟩
    fun c s hs ↦ ⟨(act_replaces c s).known hs, fun _ _ ↦ trivial⟩

theorem read_of_known (hv : v.kind.isArray = false) (hs : s.Known v) :
    ∃ x, s.read v = .ok x ∧ (s.cell v).value = .number x := by
  obtain ⟨c, hc⟩ := Option.isSome_iff_exists.mp hs
  refine ⟨c.value, ?_, ?_⟩
  · simp only [read, hv, Bool.false_eq_true, if_false, hc]
  · simp only [cell, hv, Bool.false_eq_true, if_false, Bank.cell_eq_of_get? _ hc]
    rfl

theorem read_of_not_known (hv : v.kind.isArray = false) (hs : ¬ s.Known v) : s.read v = .error (.unset v) := by
  have hnone : s.scalars.get? v = none := Option.not_isSome_iff_eq_none.mp hs
  simp only [read, hv, Bool.false_eq_true, if_false, hnone]

end Store

end Intercal
