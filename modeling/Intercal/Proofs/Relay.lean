import Intercal.Nexting.Relay

namespace Intercal.Relay

namespace State

def callers (s : State) : List Nat := s.frames.map (·.waiter)

/-- The units that can still act: the holder, and the callers of the pending frames in stack order. -/
def active (s : State) : List Nat := s.holder :: s.callers

structure Sound (limit : Nat) (s : State) : Prop where
  depth : s.frames.length ≤ limit
  nodup : s.active.Nodup
  started : ∀ u ∈ s.active, u ≤ s.attempts

end State

variable {limit : Nat} {s t : State}

theorem sound_start (limit baton : Nat) : ({ baton } : State).Sound limit where
  depth := Nat.zero_le _
  nodup := by simp [State.active, State.callers]
  started := by simp [State.active, State.callers]

theorem step_next {label : Label} (h : s.frames.length < limit) :
    (step limit s (.next label)).turn = .going
      { s with holder := s.attempts + 1, attempts := s.attempts + 1, frames := ⟨label, s.holder⟩ :: s.frames } := by
  simp only [step, Nexting.next, h, if_true]
  rfl

theorem step_next_refused {label : Label} (h : limit ≤ s.frames.length) :
    (step limit s (.next label)).turn =
      .ended (.failed ((Fault.tooDeep limit).diagnostic.orTraced (Nexting.labels s.frames)) (some s.baton)) := by
  simp only [step, Nexting.next, Nat.not_lt.mpr h, if_false]
  rfl

theorem step_resume {depth : Nat} {frame : Frame Nat} {rest : List (Frame Nat)}
    (h : s.frames.drop depth = frame :: rest) :
    (step limit s (.resume (depth + 1))).turn = .going { s with holder := frame.waiter, frames := rest } := by
  simp only [step, Nexting.resume, Nat.add_sub_cancel, h]
  rfl

theorem step_resume_refused {depth : Nat} (h : s.frames.length ≤ depth) :
    (step limit s (.resume (depth + 1))).turn =
      .ended (.failed ((Fault.rupture (depth + 1) s.frames.length).diagnostic.orTraced (Nexting.labels s.frames))
        (some s.baton)) := by
  simp only [step, Nexting.resume, Nat.add_sub_cancel, List.drop_eq_nil_of_le h]
  rfl

theorem step_forget (depth : Nat) :
    (step limit s (.forget depth)).turn = .going { s with frames := s.frames.drop depth } := rfl

/-- A move that goes on starts a new unit on top, or leaves some of those who were there. -/
theorem step_active {move : Move} (h : (step limit s move).turn = .going t) :
    (s.frames.length < limit ∧ t.attempts = s.attempts + 1 ∧ t.frames.length = s.frames.length + 1 ∧
      t.active = t.attempts :: s.active) ∨
    (t.attempts = s.attempts ∧ t.frames.length ≤ s.frames.length ∧ t.active.Sublist s.active) := by
  cases move with
  | next label =>
    by_cases hroom : s.frames.length < limit
    · rw [step_next hroom] at h
      cases h
      exact .inl ⟨hroom, rfl, rfl, rfl⟩
    · rw [step_next_refused (Nat.not_lt.mp hroom)] at h
      cases h
  | resume depth =>
    cases depth with
    | zero => cases h; exact .inr ⟨rfl, Nat.le_refl _, List.Sublist.refl _⟩
    | succ depth =>
      cases hdrop : s.frames.drop depth with
      | nil =>
        rw [step_resume_refused (List.drop_eq_nil_iff.mp hdrop)] at h
        cases h
      | cons frame rest =>
        rw [step_resume hdrop] at h
        cases h
        have hsub : (frame :: rest).Sublist s.frames := hdrop ▸ List.drop_sublist depth s.frames
        refine .inr ⟨rfl, Nat.le_trans (Nat.le_succ _) hsub.length_le, ?_⟩
        exact (hsub.map fun f : Frame Nat ↦ f.waiter).cons s.holder
  | forget depth =>
    cases h
    have hsub := List.drop_sublist depth s.frames
    exact .inr ⟨rfl, hsub.length_le, (hsub.map fun f : Frame Nat ↦ f.waiter).cons_cons s.holder⟩
  | add n => cases h; exact .inr ⟨rfl, Nat.le_refl _, List.Sublist.refl _⟩
  | other => cases h; exact .inr ⟨rfl, Nat.le_refl _, List.Sublist.refl _⟩
  | giveUp => cases h
  | fail detail => cases h
  | failTraced trace => cases h
  | crash => cases h

theorem State.Sound.step (hs : s.Sound limit) {move : Move} (h : (step limit s move).turn = .going t) :
    t.Sound limit := by
  rcases step_active h with ⟨hroom, hattempts, hlength, hactive⟩ | ⟨hattempts, hlength, hactive⟩
  · refine ⟨by omega, ?_, ?_⟩
    · rw [hactive, List.nodup_cons]
      refine ⟨fun hmem ↦ ?_, hs.nodup⟩
      have := hs.started _ hmem
      omega
    · intro u hu
      rw [hactive, List.mem_cons] at hu
      rcases hu with rfl | hu
      · exact Nat.le_refl _
      · have := hs.started u hu
        omega
  · refine ⟨Nat.le_trans hlength hs.depth, hs.nodup.sublist hactive, fun u hu ↦ ?_⟩
    rw [hattempts]
    exact hs.started u (hactive.subset hu)

theorem not_active_step {move : Move} (h : (step limit s move).turn = .going t) {u : Nat}
    (hu : u ≤ s.attempts) (hleft : u ∉ s.active) : u ≤ t.attempts ∧ u ∉ t.active := by
  rcases step_active h with ⟨-, hattempts, -, hactive⟩ | ⟨hattempts, -, hactive⟩
  · refine ⟨by omega, ?_⟩
    rw [hactive, List.mem_cons, not_or]
    exact ⟨by omega, hleft⟩
  · exact ⟨hattempts ▸ hu, fun hmem ↦ hleft (hactive.subset hmem)⟩

def Move.refusal? (limit pending : Nat) : Move → Option Fault
  | .next _ => if pending < limit then none else some (.tooDeep limit)
  | .resume depth => if depth ≤ pending then none else some (.rupture depth pending)
  | _ => none

def Move.ends (limit pending : Nat) (move : Move) : Bool :=
  match move with
  | .giveUp | .fail _ | .failTraced _ | .crash => true
  | _ => (move.refusal? limit pending).isSome

theorem step_refused {move : Move} {f : Fault} (h : move.refusal? limit s.frames.length = some f) :
    (step limit s move).turn =
      .ended (.failed (f.diagnostic.orTraced (Nexting.labels s.frames)) (some s.baton)) := by
  cases move with
  | next label =>
    simp only [Move.refusal?] at h
    split at h
    · cases h
    · next hroom =>
      cases h
      exact step_next_refused (Nat.not_lt.mp hroom)
  | resume depth =>
    simp only [Move.refusal?] at h
    split at h
    · cases h
    · next hdepth =>
      cases h
      cases depth with
      | zero => exact absurd (Nat.zero_le _) hdepth
      | succ depth => exact step_resume_refused (by omega)
  | _ => cases h

theorem step_ended_iff {move : Move} :
    (∃ r, (step limit s move).turn = .ended r) ↔ move.ends limit s.frames.length := by
  cases move with
  | next label =>
    simp only [Move.ends, Move.refusal?]
    split
    · next hroom => simp [step_next hroom]
    · next hroom => simp [step_next_refused (Nat.not_lt.mp hroom)]
  | resume depth =>
    cases depth with
    | zero => simp [Move.ends, Move.refusal?, step, State.going]
    | succ depth =>
      simp only [Move.ends, Move.refusal?]
      split
      · next hdepth =>
        obtain ⟨frame, rest, hdrop⟩ := List.exists_cons_of_ne_nil (l := s.frames.drop depth) (by
          rw [Ne, List.drop_eq_nil_iff]; omega)
        simp [step_resume hdrop]
      · next hdepth =>
        have hstep : (step limit s (.resume (depth + 1))).turn = _ := step_resume_refused (by omega)
        simp [hstep]
  | forget depth => simp [Move.ends, Move.refusal?, step_forget]
  | add n => simp [Move.ends, Move.refusal?, step, State.going]
  | other => simp [Move.ends, Move.refusal?, step, State.going]
  | giveUp => simp [Move.ends, step, State.giveUp]
  | fail detail => simp [Move.ends, step, State.fail]
  | failTraced trace => simp [Move.ends, step, State.fail]
  | crash => simp [Move.ends, step, State.fail]

def play (limit : Nat) (s : State) : List Move → Turn
  | [] => .going s
  | move :: moves =>
    match (step limit s move).turn with
    | .going t => play limit t moves
    | .ended r => .ended r

theorem play_append (limit : Nat) (s : State) (moves more : List Move) :
    play limit s (moves ++ more) =
      match play limit s moves with
      | .going t => play limit t more
      | .ended r => .ended r := by
  induction moves generalizing s with
  | nil => rfl
  | cons move moves ih =>
    simp only [List.cons_append, play]
    cases (step limit s move).turn with
    | going t => exact ih t
    | ended r => rfl

/-- A run has the result of its script; where the script is used up, the holder gives up. -/
theorem run_result (limit : Nat) (s : State) (moves : List Move) :
    (run limit s moves).result =
      match play limit s moves with
      | .going t => .finished t.baton
      | .ended r => r := by
  induction moves generalizing s with
  | nil => rfl
  | cons move moves ih =>
    simp only [run, play]
    cases (step limit s move).turn with
    | going t => exact ih t
    | ended r => rfl

end Intercal.Relay
