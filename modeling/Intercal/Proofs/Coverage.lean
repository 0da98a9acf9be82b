import Intercal.Proofs.Analysis
import Intercal.Proofs.Script

namespace Intercal

namespace Switches

theorem size_setAll (s : Switches) (slots : List Nat) (b : Bool) : (s.setAll slots b).size = s.size := by
  induction slots generalizing s with
  | nil => rfl
  | cons slot slots ih => exact (ih (s.set slot b)).trans (size_set s slot b)

theorem abstained_setAll (s : Switches) (slots : List Nat) (b : Bool) (i : Nat) :
    (s.setAll slots b).abstained i = if i ∈ slots ∧ i < s.size then b else s.abstained i := by
  induction slots generalizing s with
  | nil => simp [setAll]
  | cons slot slots ih =>
    have hcons : s.setAll (slot :: slots) b = (s.set slot b).setAll slots b := rfl
    rw [hcons, ih, size_set, abstained_set]
    by_cases heq : slot = i
    · subst heq
      by_cases hi : slot < s.size <;> simp [hi]
    · have hne : ¬ i = slot := fun h ↦ heq h.symm
      simp [heq, hne]

end Switches

namespace Program

variable {p : Program} {slots flags : Switches}

/-- The switches of the slots tell the same as a flag for each statement. -/
structure Covers (p : Program) (slots flags : Switches) : Prop where
  slots_size : slots.size = p.slotCount
  flags_size : flags.size = p.size
  abstained (i : Nat) : flags.abstained i = slots.blocks (p.slot? i)

/-- Switching the slots of statements covers flagging all of them, if those that are abstained from have slots. -/
theorem Covers.setAll (h : p.Covers slots flags) (hp : p.Sound) {positions numbers : List Nat} {b : Bool}
    (hnumbers : ∀ k, k ∈ numbers ↔ ∃ i ∈ positions, p.slot? i = some k)
    (hslot : b = true → ∀ i ∈ positions, (p.slot? i).isSome) :
    p.Covers (slots.setAll numbers b) (flags.setAll positions b) where
  slots_size := by rw [Switches.size_setAll, h.slots_size]
  flags_size := by rw [Switches.size_setAll, h.flags_size]
  abstained i := by
    rw [Switches.abstained_setAll, h.abstained]
    cases hi : p.slot? i with
    | none =>
      have hclear : i ∈ positions → b = false := by
        intro hmem
        cases b with
        | false => rfl
        | true => simpa [hi] using hslot rfl i hmem
      by_cases hmem : i ∈ positions
      · simp [Switches.blocks, hclear hmem]
      · simp [Switches.blocks, hmem]
    | some k =>
      have hmem : k ∈ numbers ↔ i ∈ positions := by
        rw [hnumbers]
        refine ⟨fun ⟨j, hj, hk⟩ ↦ ?_, fun hmem ↦ ⟨i, hmem, hi⟩⟩
        rwa [← hp.slot?_injective hk hi]
      have hk : k < slots.size := h.slots_size ▸ hp.slot?_lt hi
      have hin : i < flags.size := by
        obtain ⟨s, hs, -⟩ := hp.slot?_eq_some_iff.mp hi
        rw [h.flags_size]
        exact (List.getElem?_eq_some_iff.mp hs).1
      simp only [Switches.blocks, Switches.abstained_setAll, hmem, hk, hin]

theorem covers_defaults (hp : p.Sound) (setting : Setting) :
    p.Covers ⟨(Chunk.lower setting p).defaults⟩ ⟨(p.statements.map fun s ↦ !s.header.enabled).toArray⟩ := by
  have hdefaults : (Chunk.lower setting p).defaults =
      ((p.statements.filter (needsSlot (abstentions p.statements))).map fun s ↦ !s.header.enabled).toArray := by
    simp only [Chunk.lower, hp.slots]
    exact congrArg List.toArray (filterMap_zip_assignSlots (fun s ↦ !s.header.enabled) _ 0 p.statements)
  refine ⟨?_, by simp [Switches.size, size], fun i ↦ ?_⟩
  · rw [hp.slotCount_eq, hdefaults]
    simp [Switches.size, List.countP_eq_length_filter]
  · rw [hdefaults]
    simp only [Switches.abstained, Array.getD_eq_getD_getElem?, List.getElem?_toArray, List.getElem?_map]
    cases hi : p.slot? i with
    | some k =>
      obtain ⟨s, hs, hneeds, rfl⟩ := hp.slot?_eq_some_iff.mp hi
      simp [Switches.blocks, Switches.abstained, hs, filter_getElem?_countP _ hs hneeds]
    | none =>
      cases hs : p.statements[i]? with
      | none => rfl
      | some s =>
        have hneeds : needsSlot (abstentions p.statements) s = false := by
          have hiff := hp.needsSlot_iff hs
          simpa [hi] using hiff
        simp only [needsSlot, Bool.or_eq_false_iff, Bool.not_eq_false'] at hneeds
        simp [Switches.blocks, hneeds.1]

end Program

theorem Table.find_isSome_iff {κ α : Type} [DecidableEq κ] (k : κ) (entries : List (κ × α)) :
    (find k entries).isSome ↔ k ∈ entries.map (·.1) := by
  induction entries with
  | nil => simp [find]
  | cons e entries ih =>
    obtain ⟨k', a⟩ := e
    by_cases h : k' = k
    · simp [find, h]
    · have hne : ¬ k = k' := fun heq ↦ h heq.symm
      simp [find, h, hne, ih]

theorem Linkage.mem_labels_iff {k : Linkage} {l : Label} : l ∈ k.labels ↔ (k.owner? l).isSome := by
  rw [labels, List.mem_mergeSort, ← Table.find_isSome_iff]
  rfl

namespace Script

variable {script : Script} {p : Program} {t : Abstention} {i : Nat}

theorem origin?_eq_some_iff {b : Body} {n : Nat} : b.origin? = some n ↔ b = .comeFrom n := by
  cases b <;> simp [Body.origin?]

end Script

end Intercal
