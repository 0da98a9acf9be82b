import Intercal.Proofs.Cells

namespace Intercal

namespace Bank

variable {α β : Type} [Inhabited α] {b : Bank α} {v : Variable}

theorem retrieve?_of_nil (h : (b.cell v).history = []) : b.retrieve? v = none := by
  unfold retrieve?
  split
  · next hget =>
    rw [cell_eq_of_get? b hget] at h
    cases h
  · rfl

theorem retrieve?_of_cons (f : α → β) {last : β} {older : List β} (h : ((b.cell v).map f).history = last :: older) :
    ∃ b', b.retrieve? v = some b' ∧
      (b'.cell v).map f = ⟨if (b.cell v).ignored then f (b.cell v).value else last, (b.cell v).ignored, older⟩ := by
  cases hget : b.get? v with
  | none =>
    rw [cell, hget] at h
    cases h
  | some c =>
    obtain ⟨value, ignored, history⟩ := c
    rw [cell_eq_of_get? b hget] at h ⊢
    obtain ⟨last, older, rfl, rfl, rfl⟩ := List.map_eq_cons_iff.mp h
    refine ⟨_, by rw [retrieve?, hget], ?_⟩
    rw [cell_insert_self]
    cases ignored <;> rfl

end Bank

namespace Store

variable {s : Store} {v : Variable}

theorem cell_stash (s : Store) (v : Variable) :
    (s.run (stash v)).2.cell v = { s.cell v with history := (s.cell v).value :: (s.cell v).history } := by
  unfold run stash cell
  split <;> rw [Bank.stash, Bank.cell_insert_self] <;> rfl

theorem run_retrieve_of_nil (h : (s.cell v).history = []) : s.run (retrieve v) = (.error (.nothingStashed v), s) := by
  unfold cell at h
  unfold run retrieve
  split at h
  · next hv => rw [if_pos hv, Bank.retrieve?_of_nil (List.map_eq_nil_iff.mp h)]
  · next hv => rw [if_neg hv, Bank.retrieve?_of_nil (List.map_eq_nil_iff.mp h)]

theorem run_retrieve_of_cons {last : Content} {older : List Content} (h : (s.cell v).history = last :: older) :
    ∃ t, s.run (retrieve v) = (.ok (), t) ∧
      t.cell v = ⟨if (s.cell v).ignored then (s.cell v).value else last, (s.cell v).ignored, older⟩ := by
  unfold cell at h ⊢
  unfold run retrieve
  cases hv : v.kind.isArray with
  | true =>
    rw [hv, if_pos rfl] at h
    obtain ⟨b, hb, hcell⟩ := Bank.retrieve?_of_cons Content.array h
    exact ⟨{ s with arrays := b }, by rw [if_pos rfl, hb], hcell⟩
  | false =>
    rw [hv, if_neg Bool.false_ne_true] at h
    obtain ⟨b, hb, hcell⟩ := Bank.retrieve?_of_cons Content.number h
    exact ⟨{ s with scalars := b }, by rw [if_neg Bool.false_ne_true, hb], hcell⟩

namespace Request

def stashes (v : Variable) : Request → Bool
  | .stash w => w = v
  | _ => false

def retrieves (v : Variable) : Request → Bool
  | .retrieve w => w = v
  | _ => false

theorem stashes_iff {r : Request} : r.stashes v = true ↔ r = .stash v := by
  cases r <;> simp [stashes]

theorem retrieves_iff {r : Request} : r.retrieves v = true ↔ r = .retrieve v := by
  cases r <;> simp [retrieves]

/-- Apart from writing, a request causes only the change that it asks for. -/
theorem Causes.eq_of_history {r : Request} {c : Change} (h : r.Causes c) :
    (c = .stash c.subject → r = .stash c.subject) ∧ (c = .retrieve c.subject → r = .retrieve c.subject) := by
  cases r with
  | writeIn w => rcases h with ⟨x, rfl⟩ | ⟨subscripts, x, rfl⟩ <;> exact ⟨nofun, nofun⟩
  | call routine =>
    obtain ⟨w, -, x, rfl⟩ := h
    exact ⟨nofun, nofun⟩
  | stash v =>
    cases h
    exact ⟨fun _ ↦ rfl, nofun⟩
  | retrieve v =>
    cases h
    exact ⟨nofun, fun _ ↦ rfl⟩
  | write | writeElement | redimension | ignore | remember =>
    cases h
    exact ⟨nofun, nofun⟩
  | _ => exact h.elim

end Request

theorem Change.Turns.history {α : Type} {c : Change} {a b : Cell α} (h : c.Turns a b) (hstash : c ≠ .stash c.subject)
    (hretrieve : c ≠ .retrieve c.subject) : b.history = a.history := by
  cases c with
  | write | writeElement | redimension => exact h.2.1
  | stash v => exact absurd rfl hstash
  | retrieve v => exact absurd rfl hretrieve
  | ignore v | remember v =>
    cases h
    rfl

theorem history_serve_of_ne {r : Request} (hstash : r ≠ .stash v) (hretrieve : r ≠ .retrieve v) (s : Store) :
    ((s.run r.serve).2.cell v).history = (s.cell v).history := by
  have hdetached := detached_cell v fun c ↦ c.history = (s.cell v).history
  refine (hdetached.request (fun _ ↦ trivial) fun c hc t ht ↦ ⟨?_, fun _ _ ↦ trivial⟩) s rfl |>.1
  rcases (act_replaces c t).cell v with hcell | ⟨rfl, hturns⟩
  · rw [hcell, ht]
  · exact (hturns.history (mt hc.eq_of_history.1 hstash) (mt hc.eq_of_history.2 hretrieve)).trans ht

/-- Of this variable, no more is retrieved than has been stashed at any time, and just as much in the end. -/
structure Balanced (v : Variable) (rs : List Request) : Prop where
  within (n : Nat) : (rs.take n).countP (Request.retrieves v) ≤ (rs.take n).countP (Request.stashes v)
  total : rs.countP (Request.retrieves v) = rs.countP (Request.stashes v)

/-- What lies deeper in the history than the requests reach stays there. -/
theorem history_serve {newer older : List Content} (rs : List Request) (hs : (s.cell v).history = newer ++ older)
    (hrs : ∀ n, (rs.take n).countP (Request.retrieves v) ≤
      (rs.take n).countP (Request.stashes v) + newer.length) :
    ∃ newest, ((serve s rs).2.cell v).history = newest ++ older ∧
      newest.length + rs.countP (Request.retrieves v) = newer.length + rs.countP (Request.stashes v) := by
  induction rs generalizing s newer with
  | nil => exact ⟨newer, hs, rfl⟩
  | cons r rs ih =>
    have hserve : (serve s (r :: rs)).2 = (serve (s.run r.serve).2 rs).2 := rfl
    have hrest (n : Nat) := hrs (n + 1)
    simp only [List.take_succ_cons, List.countP_cons] at hrest
    rw [hserve, List.countP_cons, List.countP_cons]
    by_cases hstash : r = .stash v
    · subst hstash
      have hcell : ((s.run (Request.stash v).serve).2.cell v).history = ((s.cell v).value :: newer) ++ older := by
        rw [Request.serve, run_done, cell_stash, hs]
        rfl
      simp only [Request.stashes_iff.mpr, Request.retrieves, Bool.false_eq_true, if_true, if_false] at hrest ⊢
      obtain ⟨newest, hnewest, hlength⟩ := ih hcell fun n ↦ by
        have hn := hrest n
        rw [List.length_cons]
        omega
      rw [List.length_cons] at hlength
      exact ⟨newest, hnewest, by omega⟩
    · have hstashes : r.stashes v = false := Bool.eq_false_iff.mpr (mt Request.stashes_iff.mp hstash)
      simp only [hstashes, Bool.false_eq_true, if_false, Nat.add_zero] at hrest ⊢
      by_cases hretrieve : r = .retrieve v
      · subst hretrieve
        simp only [Request.retrieves_iff.mpr, if_true] at hrest ⊢
        cases newer with
        | nil =>
          have hfirst := hrest 0
          simp at hfirst
        | cons last newer =>
          obtain ⟨t, ht, hcell⟩ := run_retrieve_of_cons hs
          have hhistory : ((s.run (Request.retrieve v).serve).2.cell v).history = newer ++ older := by
            rw [Request.serve, run_done, ht, hcell]
            rfl
          obtain ⟨newest, hnewest, hlength⟩ := ih hhistory fun n ↦ by
            have hn := hrest n
            rw [List.length_cons] at hn
            omega
          refine ⟨newest, hnewest, ?_⟩
          rw [List.length_cons]
          omega
      · have hretrieves : r.retrieves v = false := Bool.eq_false_iff.mpr (mt Request.retrieves_iff.mp hretrieve)
        simp only [hretrieves, Bool.false_eq_true, if_false, Nat.add_zero] at hrest ⊢
        exact ih (hs ▸ history_serve_of_ne hstash hretrieve s) hrest

theorem Balanced.history_serve {rs : List Request} (h : Balanced v rs) (s : Store) :
    ((serve s rs).2.cell v).history = (s.cell v).history := by
  have hs : (s.cell v).history = [] ++ (s.cell v).history := rfl
  obtain ⟨newest, hnewest, hlength⟩ := Store.history_serve rs hs h.within
  have hnil : newest = [] := by
    rw [← List.length_eq_zero_iff]
    have htotal := h.total
    rw [List.length_nil] at hlength
    omega
  rw [hnewest, hnil, List.nil_append]

theorem isArray_of_read {x : Word} (h : s.read v = .ok x) : v.kind.isArray = false := by
  rw [← Bool.not_eq_true]
  intro hv
  rw [read, if_pos hv] at h
  cases h

theorem known_of_read {x : Word} (h : s.read v = .ok x) : s.Known v := by
  have hv := isArray_of_read h
  by_cases hs : s.Known v
  · exact hs
  · rw [read_of_not_known hv hs] at h
    cases h

theorem read_eq_of_value {t : Store} (hv : v.kind.isArray = true ∨ s.Known v ∧ t.Known v)
    (h : (t.cell v).value = (s.cell v).value) : t.read v = s.read v := by
  cases harray : v.kind.isArray with
  | true => rw [read, read, if_pos harray, if_pos harray]
  | false =>
    obtain ⟨hs, ht⟩ := hv.resolve_left (by rw [harray]; exact Bool.false_ne_true)
    obtain ⟨x, hx, hxvalue⟩ := read_of_known harray hs
    obtain ⟨y, hy, hyvalue⟩ := read_of_known harray ht
    rw [hxvalue, hyvalue] at h
    cases h
    rw [hx, hy]

theorem grid_eq_of_value {t : Store} (hv : v.kind.isArray = true) (h : (t.cell v).value = (s.cell v).value) :
    t.grid v = s.grid v := by
  have hgrid (u : Store) : u.grid v = (u.cell v).value.grid?.elim (.error (.hyperspace v)) .ok := by
    rw [grid, cell, if_pos hv, Bank.cell]
    rcases u.arrays.get? v with _ | ⟨_ | g, _, _⟩ <;> rfl
  rw [hgrid, hgrid, h]

/-- A variable that is stashed and later retrieved, with balanced requests between, has its value and its history back
unless it is ignored then. Requests for other variables leave it alone, and just where nothing is stashed there is
nothing to retrieve. -/
theorem stash_retrieve_restores :
    (∀ (s : Store) (v : Variable) (rs : List Request), v.kind.isArray = true ∨ (∃ x, s.read v = .ok x) →
      Balanced v rs → ((serve (s.run (stash v)).2 rs).2.cell v).ignored = false →
      ∃ t, (serve (s.run (stash v)).2 rs).2.run (retrieve v) = (.ok (), t) ∧
        (t.cell v).value = (s.cell v).value ∧ (t.cell v).history = (s.cell v).history ∧
        t.read v = s.read v ∧ (v.kind.isArray = true → t.grid v = s.grid v)) ∧
    (∀ (s : Store) (v : Variable) (r : Request), (∀ c, r.Causes c → c.subject ≠ v) →
      (s.run r.serve).2.scalars.get? v = s.scalars.get? v ∧ (s.run r.serve).2.arrays.get? v = s.arrays.get? v) ∧
    ∀ (s : Store) (v : Variable), ((∃ f, (s.run (retrieve v)).1 = .error f) ↔ (s.cell v).history = []) ∧
      ((s.cell v).history = [] → s.run (retrieve v) = (.error (.nothingStashed v), s)) := by
  refine ⟨?_, fun s v r hr ↦ Request.get?_serve hr s, fun s v ↦ ⟨⟨?_, ?_⟩, run_retrieve_of_nil⟩⟩
  · intro s v rs hv hrs hignored
    have hhistory := hrs.history_serve (s.run (stash v)).2
    rw [cell_stash] at hhistory
    obtain ⟨t, ht, hcell⟩ := run_retrieve_of_cons hhistory
    rw [hignored] at hcell
    have hvalue : (t.cell v).value = (s.cell v).value := by
      rw [hcell]
      rfl
    refine ⟨t, ht, hvalue, by rw [hcell], read_eq_of_value (hv.imp_right ?_) hvalue, (grid_eq_of_value · hvalue)⟩
    rintro ⟨x, hx⟩
    have hknown := known_of_read hx
    have hstashed := ((steady_known v).stash v s hknown).1
    have hserved := (steady_known v).serve (fun _ ↦ trivial) rs hstashed
    have hretrieved := ((steady_known v).retrieve v _ hserved).1
    rw [ht] at hretrieved
    exact ⟨hknown, hretrieved⟩
  · rintro ⟨f, hf⟩
    cases hhistory : (s.cell v).history with
    | nil => rfl
    | cons last older =>
      obtain ⟨t, ht, -⟩ := run_retrieve_of_cons hhistory
      rw [ht] at hf
      cases hf
  · intro hhistory
    exact ⟨_, by rw [run_retrieve_of_nil hhistory]⟩

/-- A two by two array that is resized, stashed again and for a while ignored in between. -/
theorem stash_retrieve_restores_nested :
    let a : Variable := ⟨.tail, 1⟩
    let s := (serve {} [.redimension a [2, 2], .writeElement a [1, 2] 7]).2
    let rs := [.redimension a [3], .stash a, .ignore a, .retrieve a, .remember a, .writeElement a [2] 9]
    ∃ t, (serve (s.run (stash a)).2 rs).2.run (retrieve a) = (.ok (), t) ∧ t.readElement a [1, 2] = .ok 7 := by
  intro a s rs
  have hbalanced : Balanced a rs := by
    refine ⟨fun n ↦ ?_, by decide⟩
    match n with
    | 0 | 1 | 2 | 3 | 4 | 5 => decide
    | n + 6 =>
      rw [List.take_of_length_le (Nat.le_add_left 6 n)]
      decide
  obtain ⟨t, ht, -, -, -, hgrid⟩ := stash_retrieve_restores.1 s a rs (.inl rfl) hbalanced (by decide)
  refine ⟨t, ht, ?_⟩
  rw [readElement, hgrid rfl]
  rfl

end Store

end Intercal
