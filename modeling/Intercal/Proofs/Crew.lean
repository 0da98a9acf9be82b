import Mathlib.Logic.ExistsUnique
import Mathlib.Tactic.ByContra
import Intercal.Proofs.Relay

namespace Intercal

namespace Crew

inductive Outcome where
  | resumed (baton : Nat)
  | aborted

inductive Status where
  | unborn
  | live (baton : Nat)
  | parked (mail : Option Outcome)
  | failing (d : Diagnostic) (baton : Option Nat)
  | finished

namespace Status

/-- Has the baton, or is about to get it, or failed with it. -/
def holds : Status → Bool
  | .live _ | .failing .. | .parked (some (.resumed _)) => true
  | _ => false

def spent : Status → Bool
  | .finished | .parked (some .aborted) => true
  | _ => false

/-- Of a unit whose frame is dropped. A unit that is no longer waiting takes no notice. -/
def abort : Status → Status
  | .parked none => .parked (some .aborted)
  | st => st

end Status

end Crew

structure Crew where
  status : Nat → Crew.Status
  started : Nat
  frames : List (Frame Nat) := []
  result : Option Relay.Result := none

namespace Crew

open Relay (Move)

def start (baton : Nat) : Crew where
  status u := if u = 0 then .live baton else .unborn
  started := 1

def callers (c : Crew) : List Nat := c.frames.map (·.waiter)

def put (c : Crew) (u : Nat) (st : Status) : Crew :=
  { c with status := fun v ↦ if v = u then st else c.status v }

def send? (c : Crew) (u : Nat) (o : Outcome) : Option Crew :=
  match c.status u with
  | .parked none => some (c.put u (.parked (some o)))
  | _ => none

def abort (c : Crew) (frame : Frame Nat) : Crew := (c.send? frame.waiter .aborted).getD c

def abortAll (c : Crew) (frames : List (Frame Nat)) : Crew := frames.foldl abort c

def next (limit : Nat) (c : Crew) (u baton : Nat) (label : Label) : Crew :=
  match Nexting.next limit ⟨label, u⟩ c.frames with
  | .ok frames =>
    { (c.put u (.parked none)).put c.started (.live baton) with frames, started := c.started + 1 }
  | .error f => c.put u (.failing f.diagnostic (some baton))

def nobody (label : Label) : Diagnostic := .of .runtime .e778 ("(nobody waiting at " ++ label.write ++ ")")

def resume (c : Crew) (u baton depth : Nat) : Crew :=
  match Nexting.resume depth c.frames with
  | .ok (frame, frames) =>
    let left := { c with frames }.abortAll (c.frames.take (depth - 1))
    match left.send? frame.waiter (.resumed baton) with
    | some sent => sent.put u .finished
    | none => left.put u (.failing (nobody frame.label) (some baton))
  | .error f => c.put u (.failing f.diagnostic (some baton))

def forget (c : Crew) (depth : Nat) : Crew :=
  { c with frames := Nexting.forget depth c.frames }.abortAll (c.frames.take depth)

def conclude (c : Crew) (u : Nat) (r : Relay.Result) : Crew :=
  ({ c with frames := [], result := c.result.or (some r) }.abortAll c.frames).put u .finished

def act (limit : Nat) (c : Crew) (u baton : Nat) : Move → Crew
  | .next label => c.next limit u baton label
  | .resume 0 => c
  | .resume depth => c.resume u baton depth
  | .forget depth => c.forget depth
  | .add n => c.put u (.live ((baton + n) % 0x10000000000000000))
  | .giveUp => c.conclude u (.finished baton)
  | .fail detail => c.put u (.failing (Relay.failure detail) (some baton))
  | .failTraced trace => c.put u (.failing { Relay.failure "" with trace } none)
  | .crash => c.put u (.failing Fault.crash.diagnostic none)
  | .other => c

def wake (c : Crew) (u : Nat) : Outcome → Crew
  | .resumed baton => c.put u (.live baton)
  | .aborted => c.put u .finished

/-- Anyone who can do something may do it next. The moves made are kept. -/
inductive Step (limit : Nat) (c : Crew) : List Move → Crew → Prop
  | act {u baton : Nat} (move : Move) : c.status u = .live baton → Step limit c [move] (c.act limit u baton move)
  | wake {u : Nat} {o : Outcome} : c.status u = .parked (some o) → Step limit c [] (c.wake u o)
  | fail {u : Nat} {d : Diagnostic} {baton : Option Nat} : c.status u = .failing d baton →
      Step limit c [] (c.conclude u (.failed (d.orTraced (Nexting.labels c.frames)) baton))

inductive Reaches (limit : Nat) (c : Crew) : List Move → Crew → Prop
  | refl : Reaches limit c [] c
  | tail {moves more : List Move} {d e : Crew} :
      Reaches limit c moves d → Step limit d more e → Reaches limit c (moves ++ more) e

variable {limit : Nat} {c d : Crew} {u v : Nat}

theorem put_status_self (c : Crew) (u : Nat) (st : Status) : (c.put u st).status u = st := if_pos rfl

theorem put_status_of_ne (h : v ≠ u) (st : Status) : (c.put u st).status v = c.status v := if_neg h

theorem send?_of_parked (h : c.status u = .parked none) (o : Outcome) :
    c.send? u o = some (c.put u (.parked (some o))) := by
  simp only [send?, h]

theorem abort_eq (c : Crew) (frame : Frame Nat) :
    c.abort frame =
      { c with status := fun v ↦ if v = frame.waiter then (c.status v).abort else c.status v } := by
  rcases c with ⟨status, started, frames, result⟩
  unfold abort send?
  split
  · next h =>
    simp only [Option.getD_some, put, Crew.mk.injEq, and_self, and_true]
    funext v
    split
    · next hv =>
      change status frame.waiter = .parked none at h
      rw [hv, h]
      rfl
    · rfl
  · next h =>
    simp only [Option.getD_none, Crew.mk.injEq, and_self, and_true]
    funext v
    split
    · next hv =>
      rw [hv]
      unfold Status.abort
      split
      · next hparked => exact absurd hparked h
      · rfl
    · rfl

theorem Status.abort_abort (st : Status) : st.abort.abort = st.abort := by
  rcases st with _ | _ | (_ | _) | _ | _ <;> rfl

theorem Status.not_spent_of_holds {st : Status} (h : st.holds) : ¬st.spent := by
  rcases st with _ | _ | (_ | _ | _) | _ | _ <;> simp_all [holds, Status.spent]

theorem Status.abort_spent {st : Status} (h : st.spent) : st.abort.spent := by
  rcases st with _ | _ | (_ | _ | _) | _ | _ <;> simp_all [Status.spent, Status.abort]

/-- Dropping frames is heard by their callers and by nobody else. -/
theorem abortAll_eq (c : Crew) (frames : List (Frame Nat)) :
    c.abortAll frames =
      { c with status := fun v ↦ if v ∈ frames.map (·.waiter) then (c.status v).abort else c.status v } := by
  induction frames generalizing c with
  | nil => simp [abortAll]
  | cons frame frames ih =>
    change (c.abort frame).abortAll frames = _
    rw [ih, abort_eq]
    simp only [Crew.mk.injEq, and_self, and_true, List.map_cons, List.mem_cons]
    funext v
    by_cases hv : v = frame.waiter <;> by_cases hmem : v ∈ frames.map (·.waiter) <;>
      simp [hv, hmem, Status.abort_abort]

/-- The callers of the pending frames wait below `u`, and everyone else who was started is spent. -/
structure Arranged (c : Crew) (u : Nat) : Prop where
  distinct : (u :: c.callers).Nodup
  holds : (c.status u).holds
  waiting : ∀ v ∈ c.callers, c.status v = .parked none
  spent : ∀ v < c.started, v ≠ u → v ∉ c.callers → (c.status v).spent
  unborn : ∀ v, c.started ≤ v → c.status v = .unborn

structure Dissolved (c : Crew) : Prop where
  frames : c.frames = []
  spent : ∀ v < c.started, (c.status v).spent
  unborn : ∀ v, c.started ≤ v → c.status v = .unborn

theorem arranged_start (baton : Nat) : (start baton).Arranged 0 where
  distinct := by simp [callers, start]
  holds := rfl
  waiting := by simp [callers, start]
  spent v hv hne := absurd (Nat.lt_one_iff.mp hv) hne
  unborn v hv := if_neg (Nat.ne_of_gt hv)

namespace Arranged

theorem lt_of_ne_unborn (h : c.Arranged u) (hv : c.status v ≠ .unborn) : v < c.started := by
  by_contra hlt
  exact hv (h.unborn v (Nat.not_lt.mp hlt))

theorem lt_started (h : c.Arranged u) : u < c.started := by
  refine h.lt_of_ne_unborn fun hu ↦ ?_
  have hholds := h.holds
  rw [hu] at hholds
  cases hholds

theorem caller_lt_started (h : c.Arranged u) (hv : v ∈ c.callers) : v < c.started :=
  h.lt_of_ne_unborn (by rw [h.waiting v hv]; nofun)

theorem not_mem (h : c.Arranged u) : u ∉ c.callers := (List.nodup_cons.mp h.distinct).1

theorem eq_of_holds (h : c.Arranged u) (hv : (c.status v).holds) : v = u := by
  by_contra hne
  have hlt := h.lt_of_ne_unborn (v := v) (fun hunborn ↦ by rw [hunborn] at hv; cases hv)
  by_cases hmem : v ∈ c.callers
  · rw [h.waiting v hmem] at hv
    cases hv
  · exact Status.not_spent_of_holds hv (h.spent v hlt hne hmem)

theorem existsUnique_holds (h : c.Arranged u) : ∃! v, (c.status v).holds :=
  ⟨u, h.holds, fun _ hv ↦ h.eq_of_holds hv⟩

theorem parked_iff (h : c.Arranged u) : c.status v = .parked none ↔ v ∈ c.callers := by
  refine ⟨fun hv ↦ ?_, h.waiting v⟩
  by_contra hmem
  have hne : v ≠ u := by
    rintro rfl
    have hholds := h.holds
    rw [hv] at hholds
    cases hholds
  have hspent := h.spent v (h.lt_of_ne_unborn (by rw [hv]; nofun)) hne hmem
  rw [hv] at hspent
  cases hspent

/-- The unit that has the baton can act, or else it can open its mail or end the run. -/
theorem live_or_step (h : c.Arranged u) : (∃ b, c.status u = .live b) ∨ ∃ d, Step limit c [] d := by
  have hholds := h.holds
  cases hu : c.status u with
  | live b => exact .inl ⟨b, rfl⟩
  | failing d b => exact .inr ⟨_, .fail hu⟩
  | parked mail =>
    cases mail with
    | some o => exact .inr ⟨_, .wake hu⟩
    | none => rw [hu] at hholds; cases hholds
  | unborn => rw [hu] at hholds; cases hholds
  | finished => rw [hu] at hholds; cases hholds

theorem put (h : c.Arranged u) {st : Status} (hst : st.holds) : (c.put u st).Arranged u where
  distinct := h.distinct
  holds := by rwa [put_status_self]
  waiting v hv := by
    have hne : v ≠ u := fun he ↦ h.not_mem (he ▸ hv)
    rw [put_status_of_ne hne]
    exact h.waiting v hv
  spent v hv hne hmem := by
    rw [put_status_of_ne hne]
    exact h.spent v hv hne hmem
  unborn v hv := by
    rw [put_status_of_ne (Nat.ne_of_gt (Nat.lt_of_lt_of_le h.lt_started hv))]
    exact h.unborn v hv

theorem wake (h : c.Arranged u) (hv : c.status v = .parked (some .aborted)) : (c.put v .finished).Arranged u := by
  have hne : u ≠ v := by
    rintro rfl
    have := h.holds
    rw [hv] at this
    cases this
  have hstart := h.lt_of_ne_unborn (by rw [hv]; nofun)
  refine ⟨h.distinct, ?_, ?_, ?_, ?_⟩
  · rw [put_status_of_ne hne]
    exact h.holds
  · intro w hw
    have hwait := h.waiting w hw
    rw [put_status_of_ne (by rintro rfl; rw [hv] at hwait; cases hwait)]
    exact hwait
  · intro w hw hwu hmem
    by_cases hwv : w = v
    · rw [hwv, put_status_self]
      rfl
    · rw [put_status_of_ne hwv]
      exact h.spent w hw hwu hmem
  · intro w hw
    rw [put_status_of_ne (Nat.ne_of_gt (Nat.lt_of_lt_of_le hstart hw))]
    exact h.unborn w hw

theorem next (h : c.Arranged u) (label : Label) (baton : Nat) :
    ({ (c.put u (.parked none)).put c.started (.live baton) with
      frames := ⟨label, u⟩ :: c.frames, started := c.started + 1 } : Crew).Arranged c.started := by
  have hlt := h.lt_started
  have hfresh : ∀ v, v < c.started → v ≠ c.started := fun v hv ↦ Nat.ne_of_lt hv
  refine ⟨?_, ?_, ?_, ?_, ?_⟩
  · change (c.started :: u :: c.callers).Nodup
    rw [List.nodup_cons, List.mem_cons, not_or]
    exact ⟨⟨(hfresh u hlt).symm, fun hmem ↦ Nat.lt_irrefl _ (h.caller_lt_started hmem)⟩, h.distinct⟩
  · rw [put_status_self]
    rfl
  · intro v hv
    change v ∈ u :: c.callers at hv
    rcases List.mem_cons.mp hv with rfl | hv
    · rw [put_status_of_ne (hfresh _ hlt), put_status_self]
    · have hvu : v ≠ u := fun he ↦ h.not_mem (he ▸ hv)
      rw [put_status_of_ne (hfresh _ (h.caller_lt_started hv)), put_status_of_ne hvu]
      exact h.waiting v hv
  · intro v hv hne hmem
    change v ∉ u :: c.callers at hmem
    rw [List.mem_cons, not_or] at hmem
    rw [put_status_of_ne hne, put_status_of_ne hmem.1]
    exact h.spent v (Nat.lt_of_le_of_ne (Nat.lt_succ_iff.mp hv) hne) hmem.1 hmem.2
  · intro v hv
    change c.started + 1 ≤ v at hv
    rw [put_status_of_ne (by omega), put_status_of_ne (by omega)]
    exact h.unborn v (by omega)

theorem drop (h : c.Arranged u) {above below : List (Frame Nat)} (hframes : c.frames = above ++ below) :
    ({ c with frames := below }.abortAll above).Arranged u := by
  have hcallers : c.callers = above.map (·.waiter) ++ below.map (·.waiter) := by
    rw [callers, hframes, List.map_append]
  have hdistinct := h.distinct
  rw [hcallers, ← List.cons_append, List.nodup_append] at hdistinct
  obtain ⟨habove, hbelow, hapart⟩ := hdistinct
  have hu : u ∉ above.map (·.waiter) := (List.nodup_cons.mp habove).1
  rw [abortAll_eq]
  refine ⟨?_, ?_, ?_, ?_, ?_⟩
  · rw [List.nodup_cons]
    exact ⟨fun hmem ↦ hapart u List.mem_cons_self u hmem rfl, hbelow⟩
  · simp only [hu, if_false]
    exact h.holds
  · intro v hv
    have hmem : v ∉ above.map (·.waiter) := fun hmem ↦ hapart v (List.mem_cons_of_mem u hmem) v hv rfl
    simp only [hmem, if_false]
    exact h.waiting v (by rw [hcallers]; exact List.mem_append_right _ hv)
  · intro v hv hne hmem
    by_cases habort : v ∈ above.map (·.waiter)
    · have hwait := h.waiting v (by rw [hcallers]; exact List.mem_append_left _ habort)
      simp only [habort, if_true, hwait]
      rfl
    · simp only [habort, if_false]
      refine h.spent v hv hne ?_
      rw [hcallers, List.mem_append, not_or]
      exact ⟨habort, hmem⟩
  · intro v hv
    have hmem : v ∉ above.map (·.waiter) := by
      intro hmem
      have hlt := h.caller_lt_started (v := v) (by rw [hcallers]; exact List.mem_append_left _ hmem)
      exact absurd hlt (Nat.not_lt.mpr hv)
    simp only [hmem, if_false]
    exact h.unborn v hv

theorem hand (h : c.Arranged u) {frame : Frame Nat} {rest : List (Frame Nat)} (hframes : c.frames = frame :: rest)
    (baton : Nat) :
    ((({ c with frames := rest } : Crew).put frame.waiter (.parked (some (.resumed baton)))).put u .finished).Arranged
      frame.waiter := by
  have hcallers : c.callers = frame.waiter :: rest.map (·.waiter) := by
    rw [callers, hframes, List.map_cons]
  have hdistinct := h.distinct
  rw [hcallers] at hdistinct
  obtain ⟨hu, hrest⟩ := List.nodup_cons.mp hdistinct
  have hne : frame.waiter ≠ u := fun he ↦ hu (he ▸ List.mem_cons_self)
  refine ⟨hrest, ?_, ?_, ?_, ?_⟩
  · rw [put_status_of_ne hne, put_status_self]
    rfl
  · intro v hv
    have hvu : v ≠ u := fun he ↦ hu (he ▸ List.mem_cons_of_mem _ hv)
    have hvw : v ≠ frame.waiter := fun he ↦ (List.nodup_cons.mp hrest).1 (he ▸ hv)
    rw [put_status_of_ne hvu, put_status_of_ne hvw]
    exact h.waiting v (by rw [hcallers]; exact List.mem_cons_of_mem _ hv)
  · intro v hv hvw hmem
    by_cases hvu : v = u
    · rw [hvu, put_status_self]
      rfl
    · rw [put_status_of_ne hvu, put_status_of_ne hvw]
      refine h.spent v hv hvu ?_
      rw [hcallers, List.mem_cons, not_or]
      exact ⟨hvw, hmem⟩
  · intro v hv
    change c.started ≤ v at hv
    have hw := h.caller_lt_started (v := frame.waiter) (by rw [hcallers]; exact List.mem_cons_self)
    have hlt := h.lt_started
    rw [put_status_of_ne (by omega), put_status_of_ne (by omega)]
    exact h.unborn v hv

theorem conclude (h : c.Arranged u) (r : Relay.Result) : (c.conclude u r).Dissolved := by
  have hdrop := h.drop (List.append_nil c.frames).symm
  have hu := h.lt_started
  have hstatus (v : Nat) (hv : v ≠ u) :
      (c.conclude u r).status v = ({ c with frames := [] }.abortAll c.frames).status v := by
    unfold Crew.conclude
    rw [put_status_of_ne hv, abortAll_eq, abortAll_eq]
  have hstarted : (c.conclude u r).started = c.started := by
    unfold Crew.conclude
    rw [abortAll_eq]
    rfl
  rw [abortAll_eq] at hdrop hstatus
  refine ⟨?_, ?_, ?_⟩
  · unfold Crew.conclude
    rw [abortAll_eq]
    rfl
  · intro v hv
    rw [hstarted] at hv
    by_cases hvu : v = u
    · unfold Crew.conclude
      rw [hvu, put_status_self]
      rfl
    · rw [hstatus v hvu]
      exact hdrop.spent v hv hvu (by simp [callers])
  · intro v hv
    rw [hstarted] at hv
    rw [hstatus v (by omega)]
    exact hdrop.unborn v hv

end Arranged

theorem conclude_result (h : c.result = none) (u : Nat) (r : Relay.Result) : (c.conclude u r).result = some r := by
  unfold conclude
  rw [abortAll_eq]
  simp only [put, h, Option.none_or]

namespace Dissolved

theorem not_holds (h : c.Dissolved) (v : Nat) : ¬(c.status v).holds := by
  by_cases hv : v < c.started
  · exact fun hholds ↦ Status.not_spent_of_holds hholds (h.spent v hv)
  · rw [h.unborn v (Nat.not_lt.mp hv)]
    simp [Status.holds]

theorem wake (h : c.Dissolved) (hv : c.status v = .parked (some .aborted)) : (c.put v .finished).Dissolved := by
  refine ⟨h.frames, ?_, ?_⟩
  · intro w hw
    by_cases hwv : w = v
    · rw [hwv, put_status_self]
      rfl
    · rw [put_status_of_ne hwv]
      exact h.spent w hw
  · intro w hw
    have hwv : w ≠ v := by
      rintro rfl
      rw [h.unborn w hw] at hv
      cases hv
    rw [put_status_of_ne hwv]
    exact h.unborn w hw

end Dissolved

end Crew

end Intercal
