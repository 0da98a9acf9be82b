import Intercal.Chunk.Lower

namespace Intercal

theorem bind_eq_ok {ε α β : Type} {x : Except ε α} {f : α → Except ε β} {b : β} (h : x >>= f = .ok b) :
    ∃ a, x = .ok a ∧ f a = .ok b := by
  cases x with
  | error e => cases h
  | ok a => exact ⟨a, rfl, h⟩

section Labels

variable {statements : List Statement} {s : Statement} {n i : Nat}

def DistinctLabels (statements : List Statement) : Prop :=
  statements.Pairwise fun s t ↦ ∀ n, s.header.label = some n → t.header.label ≠ some n

theorem lookup_cons_eq_none {β : Type} {k m : Nat} {v : β} {seen : List (Nat × β)}
    (h : ((m, v) :: seen).lookup k = none) : k ≠ m ∧ seen.lookup k = none := by
  rw [List.lookup_cons] at h
  cases hk : k == m with
  | true => simp [hk] at h
  | false => exact ⟨by simpa using hk, by simpa [hk] using h⟩

/-- Labels that pass the check have not been seen before, nor among themselves. -/
theorem checkLabels_ok {seen : List (Nat × Nat)} (h : checkLabels seen i statements = .ok ()) :
    (∀ s ∈ statements, ∀ n, s.header.label = some n → seen.lookup n = none) ∧ DistinctLabels statements := by
  induction statements generalizing seen i with
  | nil => exact ⟨fun s hs ↦ absurd hs List.not_mem_nil, .nil⟩
  | cons s rest ih =>
    unfold checkLabels at h
    cases hlabel : s.header.label with
    | none =>
      rw [hlabel] at h
      obtain ⟨hseen, hdistinct⟩ := ih h
      refine ⟨fun t ht n hn ↦ ?_, .cons (fun t _ n hn ↦ by rw [hlabel] at hn; cases hn) hdistinct⟩
      rcases List.mem_cons.mp ht with rfl | ht
      · rw [hlabel] at hn
        cases hn
      · exact hseen t ht n hn
    | some m =>
      simp only [hlabel] at h
      split at h
      · cases h
      · cases hlookup : seen.lookup m with
        | some first => rw [hlookup] at h; cases h
        | none =>
          rw [hlookup] at h
          obtain ⟨hseen, hdistinct⟩ := ih h
          refine ⟨fun t ht n hn ↦ ?_, .cons (fun t ht n hn hn' ↦ ?_) hdistinct⟩
          · rcases List.mem_cons.mp ht with rfl | ht
            · rw [hlabel] at hn
              cases hn
              exact hlookup
            · exact (lookup_cons_eq_none (hseen t ht n hn)).2
          · rw [hlabel] at hn
            cases hn
            exact (lookup_cons_eq_none (hseen t ht _ hn')).1 rfl

theorem positionOf?_eq_some_iff (h : DistinctLabels statements) :
    positionOf? statements n = some i ↔ ∃ s, statements[i]? = some s ∧ s.header.label = some n := by
  rw [positionOf?, List.findIdx?_eq_some_iff_getElem]
  constructor
  · rintro ⟨hi, hlabel, -⟩
    exact ⟨statements[i], List.getElem?_eq_getElem hi, eq_of_beq hlabel⟩
  · rintro ⟨s, hs, hlabel⟩
    obtain ⟨hi, rfl⟩ := List.getElem?_eq_some_iff.mp hs
    refine ⟨hi, by simpa using hlabel, fun j hji hj ↦ ?_⟩
    exact List.pairwise_iff_getElem.mp h j i (Nat.lt_trans hji hi) hi hji n (eq_of_beq hj) hlabel

end Labels

section Targets

variable {all statements : List Statement} {claims result : List (Nat × Nat)}

/-- A target belongs to the `COME FROM` that had claimed it before, or to the one among the statements that names it. -/
theorem lookup_claimTargets {i : Nat} (h : claimTargets all claims i statements = .ok result) (target j : Nat) :
    result.lookup target = some j ↔ claims.lookup target = some j ∨
      ∃ d s n, statements[d]? = some s ∧ j = i + d ∧ s.body = .comeFrom n ∧ positionOf? all n = some target := by
  induction statements generalizing claims i with
  | nil =>
    cases h
    simp
  | cons s rest ih =>
    have hsplit : (∃ d t n, (s :: rest)[d]? = some t ∧ j = i + d ∧ t.body = .comeFrom n ∧
          positionOf? all n = some target) ↔
        (∃ n, j = i ∧ s.body = .comeFrom n ∧ positionOf? all n = some target) ∨
          ∃ d t n, rest[d]? = some t ∧ j = i + 1 + d ∧ t.body = .comeFrom n ∧ positionOf? all n = some target := by
      constructor
      · rintro ⟨d, t, n, ht, hj, hbody, hn⟩
        cases d with
        | zero => cases ht; exact .inl ⟨n, hj, hbody, hn⟩
        | succ d => exact .inr ⟨d, t, n, ht, by omega, hbody, hn⟩
      · rintro (⟨n, hj, hbody, hn⟩ | ⟨d, t, n, ht, hj, hbody, hn⟩)
        · exact ⟨0, s, n, rfl, hj, hbody, hn⟩
        · exact ⟨d + 1, t, n, ht, by omega, hbody, hn⟩
    rw [hsplit]
    unfold claimTargets at h
    split at h
    · next m hbody =>
      cases hposition : positionOf? all m with
      | none => rw [hposition] at h; cases h
      | some first =>
        rw [hposition] at h
        cases hclaimed : claims.lookup first with
        | some other => simp [hclaimed] at h
        | none =>
          simp only [hclaimed] at h
          rw [ih h, List.lookup_cons]
          by_cases htarget : target = first
          · subst htarget
            simp [hclaimed, hbody, hposition, eq_comm]
          · have hother : ¬ first = target := fun heq ↦ htarget heq.symm
            simp [beq_eq_false_iff_ne.mpr htarget, hbody, hposition, hother]
    · next hother =>
      rw [ih h]
      have hnone : ¬ ∃ n, j = i ∧ s.body = .comeFrom n ∧ positionOf? all n = some target :=
        fun ⟨n, _, hbody, _⟩ ↦ hother n hbody
      simp [hnone]

end Targets

section Slots

variable {ts : List Abstention} {statements : List Statement} {s : Statement} {i j next : Nat}

theorem assignSlots_getElem? (ts : List Abstention) (next : Nat) (statements : List Statement) (i : Nat) :
    (assignSlots ts next statements)[i]? = statements[i]?.map fun s ↦
      if needsSlot ts s then some (next + (statements.take i).countP (needsSlot ts)) else none := by
  induction statements generalizing next i with
  | nil => simp [assignSlots]
  | cons s rest ih =>
    cases i with
    | zero => by_cases h : needsSlot ts s <;> simp [assignSlots, h]
    | succ i =>
      by_cases h : needsSlot ts s
      · simp only [assignSlots, h, if_true, List.getElem?_cons_succ, ih, List.take_succ_cons, List.countP_cons]
        simp only [Nat.add_assoc, Nat.add_comm 1]
      · simp [assignSlots, h, ih]

theorem countP_take_lt (p : Statement → Bool) (hs : statements[i]? = some s) (hp : p s) (hij : i < j) :
    (statements.take i).countP p < (statements.take j).countP p := by
  have hstep : (statements.take (i + 1)).countP p = (statements.take i).countP p + 1 := by
    rw [List.take_add_one, hs, List.countP_append]
    simp [hp]
  have hle : (statements.take (i + 1)).countP p ≤ (statements.take j).countP p :=
    (List.take_sublist_take_left hij).countP_le
  omega

theorem countP_isSome_assignSlots (ts : List Abstention) (next : Nat) (statements : List Statement) :
    (assignSlots ts next statements).countP (·.isSome) = statements.countP (needsSlot ts) := by
  induction statements generalizing next with
  | nil => rfl
  | cons s rest ih => by_cases h : needsSlot ts s <;> simp [assignSlots, h, ih]

theorem filterMap_zip_assignSlots {β : Type} (f : Statement → β) (ts : List Abstention) (next : Nat)
    (statements : List Statement) :
    (statements.zip (assignSlots ts next statements)).filterMap (fun p ↦ p.2.map fun _ ↦ f p.1) =
      (statements.filter (needsSlot ts)).map f := by
  induction statements generalizing next with
  | nil => rfl
  | cons s rest ih => by_cases h : needsSlot ts s <;> simp [assignSlots, h, ih]

theorem filter_getElem?_countP (p : Statement → Bool) (hs : statements[i]? = some s) (hp : p s) :
    (statements.filter p)[(statements.take i).countP p]? = some s := by
  induction statements generalizing i with
  | nil => simp at hs
  | cons t rest ih =>
    cases i with
    | zero =>
      cases hs
      simp [hp]
    | succ i =>
      have ih := ih hs
      by_cases ht : p t <;> simpa [ht] using ih

end Slots

namespace Program

structure Sound (p : Program) : Prop where
  distinct : DistinctLabels p.statements
  slots : p.slots = assignSlots (abstentions p.statements) 0 p.statements
  trapdoor_iff (i j : Nat) : p.trapdoors.getD i none = some j ↔
    ∃ s t n, p.statements[i]? = some s ∧ s.header.label = some n ∧ p.statements[j]? = some t ∧ t.body = .comeFrom n

theorem analyze_eq_ok {polite : Bool} {statements : List Statement} {p : Program}
    (h : analyze polite statements = .ok p) :
    checkLabels [] 0 statements = .ok () ∧ ∃ claims, claimTargets statements [] 0 statements = .ok claims ∧
      p = ⟨statements, assignSlots (abstentions statements) 0 statements,
        (List.range statements.length).map fun i ↦ claims.lookup i⟩ := by
  obtain ⟨_, hlabels, h⟩ := bind_eq_ok h
  have hrest : (do
      let claims ← claimTargets statements [] 0 statements
      return (⟨statements, assignSlots (abstentions statements) 0 statements,
        (List.range statements.length).map fun i ↦ claims.lookup i⟩ : Program)) = .ok p := by
    cases polite with
    | false => exact h
    | true =>
      obtain ⟨_, _, hrest⟩ := bind_eq_ok h
      exact hrest
  obtain ⟨claims, hclaims, hp⟩ := bind_eq_ok hrest
  cases hp
  exact ⟨hlabels, claims, hclaims, rfl⟩

theorem analyze_ok {polite : Bool} {statements : List Statement} {p : Program}
    (h : analyze polite statements = .ok p) : p.statements = statements ∧ p.Sound := by
  obtain ⟨hlabels, claims, hclaims, rfl⟩ := analyze_eq_ok h
  have hdistinct := (checkLabels_ok hlabels).2
  refine ⟨rfl, hdistinct, rfl, fun i j ↦ ?_⟩
  have hlookup := lookup_claimTargets hclaims i j
  simp only [List.lookup_nil, reduceCtorEq, Nat.zero_add, false_or] at hlookup
  rw [List.getD_eq_getElem?_getD, List.getElem?_map]
  constructor
  · intro htrapdoor
    by_cases hi : i < statements.length
    · rw [List.getElem?_range hi, Option.map_some, Option.getD_some, hlookup] at htrapdoor
      obtain ⟨d, t, n, ht, rfl, hbody, hposition⟩ := htrapdoor
      obtain ⟨s, hs, hlabel⟩ := (positionOf?_eq_some_iff hdistinct).mp hposition
      exact ⟨s, t, n, hs, hlabel, ht, hbody⟩
    · simp [hi] at htrapdoor
  · rintro ⟨s, t, n, hs, hlabel, ht, hbody⟩
    obtain ⟨hi, -⟩ := List.getElem?_eq_some_iff.mp hs
    rw [List.getElem?_range hi, Option.map_some, Option.getD_some, hlookup]
    exact ⟨j, t, n, ht, rfl, hbody, (positionOf?_eq_some_iff hdistinct).mpr ⟨s, hs, hlabel⟩⟩

variable {p : Program} {i j slot : Nat}

theorem Sound.slot?_eq_some_iff (h : p.Sound) :
    p.slot? i = some slot ↔ ∃ s, p.statements[i]? = some s ∧ needsSlot (abstentions p.statements) s ∧
      slot = (p.statements.take i).countP (needsSlot (abstentions p.statements)) := by
  rw [slot?, h.slots, List.getD_eq_getElem?_getD, assignSlots_getElem?]
  cases p.statements[i]? with
  | none => simp
  | some s =>
    by_cases hs : needsSlot (abstentions p.statements) s
    · simp only [Option.map_some, hs, if_true, Nat.zero_add, Option.getD_some, Option.some.injEq]
      exact ⟨fun heq ↦ ⟨s, rfl, hs, heq.symm⟩, fun ⟨_, _, _, heq⟩ ↦ heq.symm⟩
    · simp [hs]

theorem Sound.slot?_injective (h : p.Sound) (hi : p.slot? i = some slot) (hj : p.slot? j = some slot) : i = j := by
  obtain ⟨s, hs, hneeds, hslot⟩ := h.slot?_eq_some_iff.mp hi
  obtain ⟨t, ht, hneeds', hslot'⟩ := h.slot?_eq_some_iff.mp hj
  rcases Nat.lt_trichotomy i j with hlt | heq | hgt
  · have := countP_take_lt _ hs hneeds hlt
    omega
  · exact heq
  · have := countP_take_lt _ ht hneeds' hgt
    omega

theorem Sound.slotCount_eq (h : p.Sound) :
    p.slotCount = p.statements.countP (needsSlot (abstentions p.statements)) := by
  rw [slotCount, h.slots, countP_isSome_assignSlots]

theorem Sound.slot?_lt (h : p.Sound) (hi : p.slot? i = some slot) : slot < p.slotCount := by
  obtain ⟨s, hs, hneeds, rfl⟩ := h.slot?_eq_some_iff.mp hi
  obtain ⟨hlt, -⟩ := List.getElem?_eq_some_iff.mp hs
  have hcount := countP_take_lt _ hs hneeds hlt
  rwa [List.take_length, ← h.slotCount_eq] at hcount

theorem Sound.needsSlot_iff (h : p.Sound) {s : Statement} (hs : p.statements[i]? = some s) :
    needsSlot (abstentions p.statements) s ↔ (p.slot? i).isSome := by
  rw [Option.isSome_iff_exists]
  constructor
  · intro hneeds
    exact ⟨_, h.slot?_eq_some_iff.mpr ⟨s, hs, hneeds, rfl⟩⟩
  · rintro ⟨slot, hslot⟩
    obtain ⟨t, ht, hneeds, -⟩ := h.slot?_eq_some_iff.mp hslot
    rw [hs] at ht
    cases ht
    exact hneeds

theorem mem_members {g : Gerund} : i ∈ p.members g ↔ ∃ s, p.statements[i]? = some s ∧ s.body.gerund? = some g := by
  rw [members, List.mem_filterMap]
  constructor
  · rintro ⟨⟨s, j⟩, hs, htest⟩
    obtain ⟨hgerund, heq⟩ := Option.ite_none_right_eq_some.mp htest
    cases heq
    exact ⟨s, List.mk_mem_zipIdx_iff_getElem?.mp hs, hgerund⟩
  · rintro ⟨s, hs, hgerund⟩
    exact ⟨(s, i), List.mk_mem_zipIdx_iff_getElem?.mpr hs, if_pos hgerund⟩

end Program

end Intercal
