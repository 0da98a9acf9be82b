import Intercal.Proofs.Shifts

namespace Intercal

namespace Relay.State

variable {α : Type} {limit : Nat} {r : Relay.State}

/-- A unit for each of the frames, and one more that holds the baton. -/
def seated (frames : List (Frame α)) : Relay.State where
  baton := 0
  holder := frames.length
  attempts := frames.length
  frames := frames.zipIdx.map fun f ↦ ⟨f.1.label, f.2⟩

def follow (limit : Nat) (r : Relay.State) : Option Move → Relay.State
  | none => r
  | some move =>
    match (step limit r move).turn with
    | .going t => t
    | .ended _ => r

theorem callers_seated (frames : List (Frame α)) : (seated frames).callers = List.range' 0 frames.length := by
  simp only [callers, seated, List.map_map]
  exact List.zipIdx_map_snd 0 frames

theorem sound_seated {frames : List (Frame α)} (h : frames.length ≤ limit) : (seated frames).Sound limit where
  depth := by simpa [seated] using h
  nodup := by
    rw [active, callers_seated, List.nodup_cons]
    exact ⟨fun hmem ↦ by simp [seated] at hmem, List.nodup_range'⟩
  started := by
    intro u hu
    rw [active, callers_seated, List.mem_cons, List.mem_range'_1] at hu
    simp only [seated] at hu ⊢
    omega

theorem follow_eq_or_step (limit : Nat) (r : Relay.State) (move : Option Move) :
    r.follow limit move = r ∨ ∃ m, (step limit r m).turn = .going (r.follow limit move) := by
  cases move with
  | none => exact .inl rfl
  | some m =>
    cases hturn : (step limit r m).turn with
    | going t => exact .inr ⟨m, by simp only [follow, hturn]⟩
    | ended result => exact .inl (by simp only [follow, hturn])

theorem Sound.follow (h : r.Sound limit) (move : Option Move) : (r.follow limit move).Sound limit := by
  rcases follow_eq_or_step limit r move with heq | ⟨m, hstep⟩
  · rwa [heq]
  · exact h.step hstep

theorem left_follow {u : Nat} (hu : u ≤ r.attempts) (hleft : u ∉ r.active) (move : Option Move) :
    u ≤ (r.follow limit move).attempts ∧ u ∉ (r.follow limit move).active := by
  rcases follow_eq_or_step limit r move with heq | ⟨m, hstep⟩
  · rw [heq]
    exact ⟨hu, hleft⟩
  · exact not_active_step hstep hu hleft

theorem attempts_le_follow (move : Option Move) : r.attempts ≤ (r.follow limit move).attempts := by
  rcases follow_eq_or_step limit r move with heq | ⟨m, hstep⟩
  · exact Nat.le_of_eq (by rw [heq])
  · rcases step_active hstep with ⟨-, hattempts, -⟩ | ⟨hattempts, -⟩ <;> omega

end Relay.State

namespace Machine

/-- A state of the machine, and the units whose turn has come to that. -/
structure Moment where
  state : State
  units : Relay.State

namespace Moment

variable {m : Machine} {a b c : Moment} {above : Nat}

def after? (m : Machine) (a : Moment) : Option Moment :=
  match m.step a.state with
  | (.going t, events) => some ⟨t, a.units.follow m.maxDepth (events.findSome? Event.move?)⟩
  | (.ended _ _, _) => none

theorem after?_eq_some (h : a.after? m = some b) :
    ∃ events, m.step a.state = (.going b.state, events) ∧
      b.units = a.units.follow m.maxDepth (events.findSome? Event.move?) := by
  unfold after? at h
  split at h
  · next t events hstep =>
    cases h
    exact ⟨events, hstep, rfl⟩
  · cases h

structure Sound (m : Machine) (a : Moment) : Prop where
  units : a.units.Sound m.maxDepth
  labels : a.units.frames.map (·.label) = a.state.frames.map (·.label)

theorem sound_seated {s : State} (h : s.frames.length ≤ m.maxDepth) : (⟨s, .seated s.frames⟩ : Moment).Sound m where
  units := Relay.State.sound_seated h
  labels := by
    have hfst : s.frames.zipIdx.map (fun f ↦ f.1.label) = (s.frames.zipIdx.map Prod.fst).map (·.label) := by
      rw [List.map_map]
      rfl
    rw [List.zipIdx_map_fst] at hfst
    simp only [Relay.State.seated, List.map_map]
    exact hfst

theorem Sound.length (h : a.Sound m) : a.units.frames.length = a.state.frames.length := by
  simpa using congrArg List.length h.labels

inductive Change (m : Machine) (a b : Moment) : Prop
  | stay (frames : b.state.frames = a.state.frames) (units : b.units = a.units)
  | next {label : Label} (calls : m.Calls a.state label)
      (frames : b.state.frames = ⟨label, .site a.state.site⟩ :: a.state.frames)
      (callers : b.units.frames = ⟨label, a.units.holder⟩ :: a.units.frames)
  | resume {depth : Nat} {label : Label} (resumes : m.Resumes a.state (depth + 1)) (leaving : b.state.leaving)
      (frames : a.state.frames.drop depth = ⟨label, .site b.state.site⟩ :: b.state.frames)
      (callers : a.units.frames.drop depth = ⟨label, b.units.holder⟩ :: b.units.frames)
      (attempts : b.units.attempts = a.units.attempts)
  | forget {depth : Nat} (frames : b.state.frames = a.state.frames.drop depth)
      (callers : b.units.frames = a.units.frames.drop depth) (holder : b.units.holder = a.units.holder)
      (attempts : b.units.attempts = a.units.attempts)

theorem Sound.change (ha : a.Sound m) (h : a.after? m = some b) : Change m a b := by
  obtain ⟨events, hstep, hunits⟩ := after?_eq_some h
  have hshifts := step_shifts m a.state
  rw [hstep] at hshifts
  cases hshifts with
  | stay frames move =>
    refine .stay frames ?_
    rw [hunits, move, Relay.State.follow]
  | next calls room frames move =>
    refine .next calls frames ?_
    simp only [hunits, move, Relay.State.follow, Relay.step_next (ha.length ▸ room)]
  | @resume t events depth label resumes leaving frames move =>
    have hlabels : (a.units.frames.drop depth).map (·.label) = label :: b.state.frames.map (·.label) := by
      rw [List.map_drop, ha.labels, ← List.map_drop, frames]
      rfl
    obtain ⟨⟨_, unit⟩, rest, hdrop, rfl, -⟩ := List.map_eq_cons_iff.mp hlabels
    refine .resume resumes leaving frames ?_ ?_
    · simpa only [hunits, move, Relay.State.follow, Relay.step_resume hdrop] using hdrop
    · simp only [hunits, move, Relay.State.follow, Relay.step_resume hdrop]
  | forget frames move =>
    refine .forget frames ?_ ?_ ?_ <;> simp only [hunits, move, Relay.State.follow, Relay.step_forget]

theorem drop_succ_of_drop {α : Type} {l rest : List α} {x : α} {n : Nat} (h : l.drop n = x :: rest) :
    l.drop (n + 1) = rest := by
  rw [← List.tail_drop, h, List.tail_cons]

theorem drop_sub_of_drop {α : Type} {l rest : List α} {n k : Nat} (h : l.drop n = rest) (hle : n ≤ k) :
    rest.drop (k - n) = l.drop k := by
  rw [← h, List.drop_drop, Nat.add_sub_cancel' hle]

theorem Sound.after (ha : a.Sound m) (h : a.after? m = some b) : b.Sound m := by
  obtain ⟨events, -, hunits⟩ := after?_eq_some h
  refine ⟨hunits ▸ ha.units.follow _, ?_⟩
  cases ha.change h with
  | stay frames units => rw [frames, units, ha.labels]
  | next calls frames callers => rw [frames, callers, List.map_cons, List.map_cons, ha.labels]
  | resume resumes leaving frames callers attempts =>
    rw [← drop_succ_of_drop frames, ← drop_succ_of_drop callers, List.map_drop, List.map_drop, ha.labels]
  | forget frames callers holder attempts => rw [frames, callers, List.map_drop, List.map_drop, ha.labels]

/-- The frame of the `NEXT` at `a` is pending at `b`, on top of the stack it was put on, with so many frames
above it. -/
def Waits (a b : Moment) (above : Nat) : Prop :=
  ∃ label, b.state.frames.drop above = ⟨label, .site a.state.site⟩ :: a.state.frames ∧
    b.units.frames.drop above = ⟨label, a.units.holder⟩ :: a.units.frames

/-- From `b` to `c` a `RESUME` takes up the `NEXT` at `a` again. Its unit is about to leave the statement, with the
stack it had. -/
structure Continues (m : Machine) (a b c : Moment) (above : Nat) : Prop where
  resumes : m.Resumes b.state (above + 1)
  site : c.state.site = a.state.site
  leaving : c.state.leaving
  frames : c.state.frames = a.state.frames
  holder : c.units.holder = a.units.holder
  callers : c.units.frames = a.units.frames

/-- The unit was there once and cannot act any more. -/
def Left (a : Moment) (unit : Nat) : Prop := unit ≤ a.units.attempts ∧ unit ∉ a.units.active

theorem Left.after {unit : Nat} (h : a.Left unit) (hafter : a.after? m = some b) : b.Left unit := by
  obtain ⟨events, -, hunits⟩ := after?_eq_some hafter
  rw [Left, hunits]
  exact Relay.State.left_follow h.1 h.2 _

theorem attempts_le_after (hafter : a.after? m = some b) : a.units.attempts ≤ b.units.attempts := by
  obtain ⟨events, -, hunits⟩ := after?_eq_some hafter
  rw [hunits]
  exact Relay.State.attempts_le_follow _

theorem Left.holder_ne {unit : Nat} (h : a.Left unit) : a.units.holder ≠ unit := by
  intro heq
  exact h.2 (heq ▸ List.mem_cons_self)

theorem Waits.callers (h : a.Waits b above) :
    b.units.callers.drop above = a.units.holder :: a.units.callers := by
  obtain ⟨label, -, hcallers⟩ := h
  rw [Relay.State.callers, ← List.map_drop, hcallers]
  rfl

theorem Waits.mem_callers (h : a.Waits b above) : a.units.holder ∈ b.units.callers :=
  List.mem_of_mem_drop (h.callers ▸ List.mem_cons_self)

theorem Waits.holder_ne (h : a.Waits b above) (hb : b.Sound m) : b.units.holder ≠ a.units.holder := by
  have hnodup := List.nodup_cons.mp hb.units.nodup
  intro heq
  exact hnodup.1 (heq ▸ h.mem_callers)

theorem Waits.not_mem_drop (h : a.Waits b above) (hb : b.Sound m) {depth : Nat} (hdepth : above < depth) :
    a.units.holder ∉ b.units.callers.drop depth := by
  have hnodup : (a.units.holder :: a.units.callers).Nodup := by
    rw [← h.callers]
    exact (List.nodup_cons.mp hb.units.nodup).2.sublist (List.drop_sublist _ _)
  rw [← drop_sub_of_drop (drop_succ_of_drop h.callers) hdepth]
  exact fun hmem ↦ (List.nodup_cons.mp hnodup).1 (List.mem_of_mem_drop hmem)

theorem Waits.length (h : a.Waits b above) : a.state.frames.length < b.state.frames.length := by
  obtain ⟨label, hframes, -⟩ := h
  have hlength := congrArg List.length hframes
  rw [List.length_drop, List.length_cons] at hlength
  omega

theorem Waits.le_started (h : a.Waits b above) (hb : b.Sound m) : a.units.holder ≤ b.units.attempts :=
  hb.units.started _ (List.mem_cons_of_mem _ h.mem_callers)

/-- A step leaves the frame pending, or takes it up again, or drops it together with its unit. -/
theorem Waits.change (h : a.Waits b above) (hb : b.Sound m) (hchange : Change m b c) :
    (∃ n, a.Waits c n) ∨ a.Continues m b c above ∨ c.Left a.units.holder := by
  obtain ⟨label, hframes, hcallers⟩ := id h
  cases hchange with
  | stay frames units => exact .inl ⟨above, label, by rw [frames, hframes], by rw [units, hcallers]⟩
  | next calls frames callers =>
    refine .inl ⟨above + 1, label, ?_, ?_⟩
    · rw [frames]
      exact hframes
    · rw [callers]
      exact hcallers
  | @resume depth _ resumes leaving frames callers attempts =>
    have hrest := drop_succ_of_drop frames
    have hrestCallers := drop_succ_of_drop callers
    -- The frame is below those that go, or it is the last of them, or it goes with those above it.
    rcases Nat.lt_trichotomy depth above with hlt | rfl | hgt
    · refine .inl ⟨above - (depth + 1), label, ?_, ?_⟩
      · exact (drop_sub_of_drop hrest hlt).trans hframes
      · exact (drop_sub_of_drop hrestCallers hlt).trans hcallers
    · rw [hframes] at frames
      rw [hcallers] at callers
      simp only [List.cons.injEq, Frame.mk.injEq, Waiter.site.injEq] at frames callers
      exact .inr (.inl ⟨resumes, frames.1.2.symm, leaving, frames.2.symm, callers.1.2.symm, callers.2.symm⟩)
    · refine .inr (.inr ⟨attempts ▸ h.le_started hb, ?_⟩)
      have hactive : c.units.active = b.units.callers.drop depth := by
        rw [Relay.State.callers, ← List.map_drop, callers]
        rfl
      rw [hactive]
      exact h.not_mem_drop hb hgt
  | @forget depth frames callers holder attempts =>
    rcases Nat.lt_or_ge above depth with hlt | hge
    · refine .inr (.inr ⟨attempts ▸ h.le_started hb, ?_⟩)
      have hactive : c.units.active = b.units.holder :: b.units.callers.drop depth := by
        rw [Relay.State.active, Relay.State.callers, callers, holder, List.map_drop]
        rfl
      rw [hactive, List.mem_cons, not_or]
      exact ⟨(h.holder_ne hb).symm, h.not_mem_drop hb hlt⟩
    · refine .inl ⟨above - depth, label, ?_, ?_⟩
      · exact (drop_sub_of_drop frames.symm hge).trans hframes
      · exact (drop_sub_of_drop callers.symm hge).trans hcallers

/-- With the `RESUME`, its own unit and those who wait above the continued one leave. -/
theorem Continues.left (h : a.Continues m b c above) (hw : a.Waits b above) (hb : b.Sound m)
    (hattempts : b.units.attempts ≤ c.units.attempts) {unit : Nat} (hunit : unit ∈ b.units.active.take (above + 1)) :
    c.Left unit := by
  have hdrop : b.units.active.drop (above + 1) = c.units.active := by
    rw [Relay.State.active, List.drop_succ_cons, hw.callers, Relay.State.active, Relay.State.callers, h.holder,
      Relay.State.callers, h.callers]
  have hnodup := hb.units.nodup
  rw [← List.take_append_drop (above + 1) b.units.active, hdrop, List.nodup_append] at hnodup
  refine ⟨Nat.le_trans (hb.units.started unit (List.mem_of_mem_take hunit)) hattempts, fun hmem ↦ ?_⟩
  exact hnodup.2.2 unit hunit unit hmem rfl

end Moment

variable {m : Machine} {s : State} {a b c : Moment} {i j k : Nat}

def moment? (m : Machine) (s : State) : Nat → Option Moment
  | 0 => some ⟨s, .seated s.frames⟩
  | n + 1 => (m.moment? s n).bind (Moment.after? m)

theorem moment?_state (m : Machine) (s : State) (n : Nat) :
    (m.moment? s n).map Moment.state =
      match advance m.turn n s with
      | .going t => some t
      | .ended _ _ => none := by
  induction n with
  | zero => rfl
  | succ n ih =>
    rw [advance_succ]
    cases hmoment : m.moment? s n with
    | none =>
      rw [hmoment] at ih
      cases hadvance : advance m.turn n s with
      | going t => rw [hadvance] at ih; cases ih
      | ended e t => simp only [moment?, hmoment, Option.bind_none, Option.map_none]
    | some a =>
      rw [hmoment] at ih
      cases hadvance : advance m.turn n s with
      | going t =>
        rw [hadvance] at ih
        cases ih
        simp only [moment?, hmoment, Option.bind_some, Moment.after?, turn]
        rcases m.step a.state with ⟨t | ⟨e, t⟩, events⟩ <;> rfl
      | ended e t => rw [hadvance] at ih; cases ih

theorem moment?_sound (h : s.frames.length ≤ m.maxDepth) {n : Nat} (ha : m.moment? s n = some a) : a.Sound m := by
  induction n generalizing a with
  | zero =>
    cases ha
    exact Moment.sound_seated h
  | succ n ih =>
    obtain ⟨b, hb, hafter⟩ := Option.bind_eq_some_iff.mp ha
    exact (ih hb).after hafter

theorem moment?_after (ha : m.moment? s k = some a) (hb : m.moment? s (k + 1) = some b) : a.after? m = some b := by
  simpa only [moment?, ha, Option.bind_some] using hb

theorem left_later {unit : Nat} (ha : m.moment? s k = some a) (hleft : a.Left unit) (hle : k ≤ j)
    (hb : m.moment? s j = some b) : b.Left unit := by
  induction hle generalizing b with
  | refl =>
    rw [ha] at hb
    cases hb
    exact hleft
  | step _ ih =>
    obtain ⟨c, hc, hafter⟩ := Option.bind_eq_some_iff.mp hb
    exact (ih hc).after hafter

def PendsUntil (m : Machine) (s : State) (i : Nat) (a : Moment) (k : Nat) : Prop :=
  i < k ∧ ∀ j, i < j → j ≤ k → ∃ b above, m.moment? s j = some b ∧ a.Waits b above

/-- The `NEXT` at `a`, the moment `i`, is taken up again by the step after the moment `k`: a `RESUME` that names one
more than the frames above it. Nothing is executed any more for its own unit and those above. -/
def ContinuedAt (m : Machine) (s : State) (i : Nat) (a : Moment) (k : Nat) : Prop :=
  m.PendsUntil s i a k ∧ ∃ b c above, m.moment? s k = some b ∧ m.moment? s (k + 1) = some c ∧ a.Waits b above ∧
    a.Continues m b c above ∧
    ∀ unit ∈ b.units.active.take (above + 1), ∀ j d, k < j → m.moment? s j = some d → d.units.holder ≠ unit

def DroppedAt (m : Machine) (s : State) (i : Nat) (a : Moment) (k : Nat) : Prop :=
  m.PendsUntil s i a k ∧ ∀ b, m.moment? s (k + 1) = some b → b.Left a.units.holder

theorem ContinuedAt.not_pends (h : m.ContinuedAt s i a k) (hkj : k < j) : ¬ m.PendsUntil s i a j := by
  intro hpends
  obtain ⟨hbefore, b, c, above, -, hc, -, hcontinues, -⟩ := h
  obtain ⟨d, n, hd, hwaits⟩ := hpends.2 (k + 1) (Nat.lt_succ_of_lt hbefore.1) hkj
  rw [hc] at hd
  cases hd
  have hlength := hwaits.length
  rw [hcontinues.frames] at hlength
  exact Nat.lt_irrefl _ hlength

theorem DroppedAt.holder_ne (h : m.DroppedAt s i a k) (hkj : k < j) (hc : m.moment? s j = some c) :
    c.units.holder ≠ a.units.holder := by
  cases hb : m.moment? s (k + 1) with
  | none =>
    have hnone : ∀ n, k + 1 ≤ n → m.moment? s n = none := by
      intro n hn
      induction hn with
      | refl => exact hb
      | step _ ih => rw [moment?, ih, Option.bind_none]
    rw [hnone j hkj] at hc
    cases hc
  | some b => exact (left_later hb (h.2 b hb) hkj hc).holder_ne

theorem PendsUntil.fate (hdepth : s.frames.length ≤ m.maxDepth) (h : m.PendsUntil s i a k) :
    m.PendsUntil s i a (k + 1) ∨ m.ContinuedAt s i a k ∨ m.DroppedAt s i a k := by
  obtain ⟨b, above, hb, hwaits⟩ := h.2 k h.1 (Nat.le_refl k)
  have hsound := moment?_sound hdepth hb
  cases hc : m.moment? s (k + 1) with
  | none => exact .inr (.inr ⟨h, fun c hsome ↦ by rw [hc] at hsome; cases hsome⟩)
  | some c =>
    have hafter := moment?_after hb hc
    rcases hwaits.change hsound (hsound.change hafter) with ⟨n, hstill⟩ | hcontinues | hdropped
    · refine .inl ⟨Nat.lt_succ_of_lt h.1, fun j hij hjk ↦ ?_⟩
      rcases Nat.lt_or_ge k j with hlt | hge
      · obtain rfl : j = k + 1 := by omega
        exact ⟨c, n, hc, hstill⟩
      · exact h.2 j hij hge
    · refine .inr (.inl ⟨h, b, c, above, hb, hc, hwaits, hcontinues, fun unit hunit j d hkj hd ↦ ?_⟩)
      have hleft := hcontinues.left hwaits hsound (Moment.attempts_le_after hafter) hunit
      exact (left_later hc hleft hkj hd).holder_ne
    · refine .inr (.inr ⟨h, fun b hb ↦ ?_⟩)
      rw [hc] at hb
      cases hb
      exact hdropped

theorem PendsUntil.later (hdepth : s.frames.length ≤ m.maxDepth) (h : m.PendsUntil s i a (i + 1)) (hij : i < j) :
    m.PendsUntil s i a j ∨ ∃ k, k < j ∧ (m.ContinuedAt s i a k ∨ m.DroppedAt s i a k) := by
  induction hij with
  | refl => exact .inl h
  | step hij ih =>
    rcases ih with hpends | ⟨k, hk, hover⟩
    · rcases hpends.fate hdepth with hpends | hover
      · exact .inl hpends
      · exact .inr ⟨_, Nat.lt_succ_self _, hover⟩
    · exact .inr ⟨k, Nat.lt_succ_of_lt hk, hover⟩

theorem PendsUntil.holder_ne (hdepth : s.frames.length ≤ m.maxDepth) (h : m.PendsUntil s i a k)
    (hc : m.moment? s k = some c) : c.units.holder ≠ a.units.holder := by
  obtain ⟨b, above, hb, hwaits⟩ := h.2 k h.1 (Nat.le_refl k)
  rw [hc] at hb
  cases hb
  exact hwaits.holder_ne (moment?_sound hdepth hc)

theorem moment?_turn (ha : m.moment? s k = some a) (hb : m.moment? s (k + 1) = some b) :
    m.turn a.state = .going b.state := by
  obtain ⟨events, hstep, -⟩ := Moment.after?_eq_some (moment?_after ha hb)
  rw [turn, hstep]

/-- A step pushes the frame of the `NEXT` it executes, or executes none and takes frames from the top. -/
theorem Moment.Change.pushes_or_drops (h : Moment.Change m a b) (hturn : m.turn a.state = .going b.state) :
    (∃ label, m.Calls a.state label ∧ b.state.frames = ⟨label, .site a.state.site⟩ :: a.state.frames) ∨
      (¬ ∃ label, m.Calls a.state label) ∧ ∃ n, b.state.frames = a.state.frames.drop n := by
  have hdrops : (∃ n, b.state.frames = a.state.frames.drop n) →
      (¬ ∃ label, m.Calls a.state label) ∧ ∃ n, b.state.frames = a.state.frames.drop n := by
    rintro ⟨n, hn⟩
    refine ⟨fun ⟨label, hcalls⟩ ↦ ?_, n, hn⟩
    have hgrows := hcalls.grows hturn
    rw [hn, List.length_drop] at hgrows
    omega
  cases h with
  | stay frames units => exact .inr (hdrops ⟨0, frames⟩)
  | next calls frames callers => exact .inl ⟨_, calls, frames⟩
  | resume resumes leaving frames callers attempts => exact .inr (hdrops ⟨_, (Moment.drop_succ_of_drop frames).symm⟩)
  | forget frames callers holder attempts => exact .inr (hdrops ⟨_, frames⟩)

theorem Calls.pends {label : Label} (hdepth : s.frames.length ≤ m.maxDepth) (ha : m.moment? s i = some a)
    (hcalls : m.Calls a.state label) (hb : m.moment? s (i + 1) = some b) : m.PendsUntil s i a (i + 1) := by
  refine ⟨Nat.lt_succ_self i, fun j hij hj ↦ ?_⟩
  obtain rfl : j = i + 1 := by omega
  have hgrows := hcalls.grows (moment?_turn ha hb)
  have hlength {n : Nat} (hn : b.state.frames = a.state.frames.drop n) : False := by
    rw [hn, List.length_drop] at hgrows
    omega
  cases (moment?_sound hdepth ha).change (moment?_after ha hb) with
  | stay frames units => exact (hlength (n := 0) frames).elim
  | next calls frames callers => exact ⟨b, 0, hb, _, frames, callers⟩
  | resume resumes leaving frames callers attempts => exact (hlength (Moment.drop_succ_of_drop frames).symm).elim
  | forget frames callers holder attempts => exact (hlength frames).elim

/-- The discipline of `NEXT` over whole runs. The stack stays within the limit, and a step pushes the frame of a `NEXT`
or takes frames from the top. The unit of a `NEXT` acts again only after a `RESUME` that counts its frame as the last,
which happens once at most; if the frame goes any other way, the unit is gone. -/
theorem nexting_discipline (m : Machine) (s : State) (hdepth : s.frames.length ≤ m.maxDepth) :
    (∀ events n t, (m.run events n s).1 = .going t ↔ ∃ a, m.moment? s n = some a ∧ a.state = t) ∧
    (∀ n a, m.moment? s n = some a → a.state.frames.length ≤ m.maxDepth ∧
      (∀ b, m.moment? s (n + 1) = some b →
        (∃ label, m.Calls a.state label ∧ b.state.frames = ⟨label, .site a.state.site⟩ :: a.state.frames) ∨
          (¬ ∃ label, m.Calls a.state label) ∧ ∃ k, b.state.frames = a.state.frames.drop k) ∧
      ∀ e t, m.turn a.state = .ended e t → ∃ k, t.frames = a.state.frames.drop k) ∧
    ∀ i a b label, m.moment? s i = some a → m.Calls a.state label → m.moment? s (i + 1) = some b →
      m.PendsUntil s i a (i + 1) ∧
      (∀ j c, i < j → m.moment? s j = some c → c.units.holder = a.units.holder →
        ∃ k, k < j ∧ m.ContinuedAt s i a k) ∧
      (∀ j k, m.ContinuedAt s i a j → m.ContinuedAt s i a k → j = k) ∧
      ∀ k, m.PendsUntil s i a k → ¬ m.PendsUntil s i a (k + 1) → ¬ m.ContinuedAt s i a k →
        ∀ j c, k < j → m.moment? s j = some c → c.units.holder ≠ a.units.holder := by
  refine ⟨fun events n t ↦ ?_, fun n a ha ↦ ⟨?_, fun b hb ↦ ?_, fun e t hturn ↦ ?_⟩,
    fun i a b label ha hcalls hb ↦ ?_⟩
  · rw [run_fst, ← Option.map_eq_some_iff, moment?_state]
    cases advance m.turn n s <;> simp
  · have hsound := moment?_sound hdepth ha
    exact hsound.length ▸ hsound.units.depth
  · exact ((moment?_sound hdepth ha).change (moment?_after ha hb)).pushes_or_drops (moment?_turn ha hb)
  · have hshifts := step_shifts m a.state
    rw [show (m.step a.state).1 = .ended e t from hturn] at hshifts
    cases hshifts with
    | ended _ depth frames => exact ⟨depth, frames⟩
  · have hpends := hcalls.pends hdepth ha hb
    refine ⟨hpends, fun j c hij hc hholder ↦ ?_, fun j k hj hk ↦ ?_, fun k hk hnot hcontinued j c hkj hc ↦ ?_⟩
    · rcases hpends.later hdepth hij with hwaiting | ⟨k, hkj, hcontinued | hdropped⟩
      · exact absurd hholder (hwaiting.holder_ne hdepth hc)
      · exact ⟨k, hkj, hcontinued⟩
      · exact absurd hholder (hdropped.holder_ne hkj hc)
    · rcases Nat.lt_trichotomy j k with hlt | heq | hgt
      · exact absurd hk.1 (hj.not_pends hlt)
      · exact heq
      · exact absurd hj.1 (hk.not_pends hgt)
    · rcases hk.fate hdepth with hstill | hthen | hdropped
      · exact absurd hstill hnot
      · exact absurd hthen hcontinued
      · exact hdropped.holder_ne hkj hc

def detour : Machine where
  parts := #[⟨{ Chunk.empty "detour" with
    instructions := #[
      ⟨.next ⟨1, by decide, by decide⟩ 1, {}, none, none, 1⟩,
      ⟨.next ⟨2, by decide, by decide⟩ 2, {}, none, some ⟨1, by decide, by decide⟩, 2⟩,
      ⟨.resume (.constant 2 false), {}, none, some ⟨2, by decide, by decide⟩, 3⟩] }, .empty⟩]
  maxDepth := 2

theorem nexting_discipline_detour :
    ∃ a b c, detour.moment? ⟨⟨0, 0⟩, false, [], #[⟨#[]⟩], {}, 0⟩ 0 = some a ∧
      detour.moment? ⟨⟨0, 0⟩, false, [], #[⟨#[]⟩], {}, 0⟩ 1 = some b ∧
      detour.moment? ⟨⟨0, 0⟩, false, [], #[⟨#[]⟩], {}, 0⟩ 3 = some c ∧
      detour.Calls a.state ⟨1, by decide, by decide⟩ ∧ c.units.holder = a.units.holder ∧
      ∃ k, k < 3 ∧ detour.ContinuedAt ⟨⟨0, 0⟩, false, [], #[⟨#[]⟩], {}, 0⟩ 0 a k := by
  obtain ⟨-, -, hnext⟩ := nexting_discipline detour ⟨⟨0, 0⟩, false, [], #[⟨#[]⟩], {}, 0⟩ (by decide)
  have hcalls : detour.Calls ⟨⟨0, 0⟩, false, [], #[⟨#[]⟩], {}, 0⟩ ⟨1, by decide, by decide⟩ :=
    ⟨_, _, ⟨rfl, rfl, rfl, rfl⟩, .inl ⟨1, rfl⟩⟩
  obtain ⟨-, hagain, -⟩ := hnext 0 _ _ _ rfl hcalls rfl
  exact ⟨_, _, _, rfl, rfl, rfl, hcalls, rfl, hagain 3 _ (by decide) rfl rfl⟩

end Machine

end Intercal
