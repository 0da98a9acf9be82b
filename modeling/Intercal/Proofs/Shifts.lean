import Intercal.Proofs.Lockstep
import Intercal.Proofs.Relay

namespace Intercal

def Event.move? : Event → Option Relay.Move
  | .next label _ => some (.next label)
  | .resumed _ depth => some (.resume depth)
  | .forgot depth _ => some (.forget depth)
  | _ => none

theorem findSome?_move?_aborts {α : Type} (frames : List (Frame α)) (events : List Event) :
    (Nexting.aborts frames ++ events).findSome? Event.move? = events.findSome? Event.move? := by
  induction frames with
  | nil => rfl
  | cons frame frames ih => exact ih

namespace Machine

variable {m : Machine} {s t : State}

/-- The statement at hand gets executed, in the state that its draw leaves. -/
structure Performs (m : Machine) (s t : State) (i : Instruction) : Prop where
  entering : s.leaving = false
  here : m.instruction? s = some i
  admitted : s.switch.blocks i.guard.slot = false
  lucky : m.draw i.guard.percent s = some (true, t)

/-- A `NEXT` gets executed that leads to a label of the same part or of a library. -/
def Calls (m : Machine) (s : State) (label : Label) : Prop :=
  ∃ t i, m.Performs s t i ∧
    ((∃ entry, i.op = .next label entry) ∨
      i.op = .nextLinked label ∧
        ∃ c number, (m.part s.site.part).linkage.owner? label = some c ∧ c.body = .library number)

def Resumes (m : Machine) (s : State) (depth : Nat) : Prop :=
  ∃ t i e v store, m.Performs s t i ∧ i.op = .resume e ∧ t.store.run e.value = (.ok v, store) ∧ v.bits.toNat = depth

/-- What a step can do to the stack, and the move that the log tells of. -/
inductive Shifts (m : Machine) (s : State) : Turn → List Event → Prop
  | stay {t : State} {events : List Event} (frames : t.frames = s.frames)
      (move : events.findSome? Event.move? = none) : Shifts m s (.going t) events
  | next {t : State} {events : List Event} {label : Label} (calls : m.Calls s label)
      (room : s.frames.length < m.maxDepth) (frames : t.frames = ⟨label, .site s.site⟩ :: s.frames)
      (move : events.findSome? Event.move? = some (.next label)) : Shifts m s (.going t) events
  | resume {t : State} {events : List Event} {depth : Nat} {label : Label} (resumes : m.Resumes s (depth + 1))
      (leaving : t.leaving) (frames : s.frames.drop depth = ⟨label, .site t.site⟩ :: t.frames)
      (move : events.findSome? Event.move? = some (.resume (depth + 1))) : Shifts m s (.going t) events
  | forget {t : State} {events : List Event} {depth : Nat} (frames : t.frames = s.frames.drop depth)
      (move : events.findSome? Event.move? = some (.forget depth)) : Shifts m s (.going t) events
  | ended {t : State} {events : List Event} (e : Ending) (depth : Nat) (frames : t.frames = s.frames.drop depth) :
      Shifts m s (.ended e t) events

theorem Shifts.cons {turn : Turn} {events : List Event} (h : Shifts m s turn events) {event : Event}
    (hevent : event.move? = none) : Shifts m s turn (event :: events) := by
  have hfind : (event :: events).findSome? Event.move? = events.findSome? Event.move? := by
    simp only [List.findSome?_cons, hevent]
  cases h with
  | stay frames move => exact .stay frames (hfind.trans move)
  | next calls room frames move => exact .next calls room frames (hfind.trans move)
  | resume resumes leaving frames move => exact .resume resumes leaving frames (hfind.trans move)
  | forget frames move => exact .forget frames (hfind.trans move)
  | ended e depth frames => exact .ended e depth frames

theorem fail_shifts (d : Diagnostic) : Shifts m s (t.fail d).1 (t.fail d).2 :=
  .ended _ s.frames.length List.drop_length.symm

theorem giveUp_shifts : Shifts m s t.giveUp.1 t.giveUp.2 :=
  .ended _ s.frames.length List.drop_length.symm

theorem act_shifts {α : Type} {a : Action α} {k : α → State → Step} {line : Nat}
    (h : ∀ x store, t.store.run a = (.ok x, store) →
      Shifts m s (k x { t with store }).1 (k x { t with store }).2) :
    Shifts m s (m.act t line a k).1 (m.act t line a k).2 := by
  unfold act
  split
  · next x store hrun => exact h x store hrun
  · exact fail_shifts _

theorem forget_shifts (depth : Nat) (hframes : t.frames = s.frames) :
    Shifts m s (t.forget depth).1 (t.forget depth).2 := by
  have hdrop : t.frames.drop depth = s.frames.drop depth := by rw [hframes]
  exact .forget hdrop (findSome?_move?_aborts _ _)

theorem next_shifts {line : Nat} {label : Label} {target : Site} (hcalls : m.Calls s label)
    (hframes : t.frames = s.frames) (hsite : t.site = s.site) :
    Shifts m s (m.next t line label target).1 (m.next t line label target).2 := by
  simp only [next, Nexting.next, hframes, hsite]
  by_cases hroom : s.frames.length < m.maxDepth
  · rw [if_pos hroom]
    exact .next hcalls hroom rfl rfl
  · rw [if_neg hroom]
    exact fail_shifts _

theorem resume_shifts {line depth : Nat} (hresumes : m.Resumes s (depth + 1)) (hframes : t.frames = s.frames) :
    Shifts m s (m.resume t line (depth + 1)).1 (m.resume t line (depth + 1)).2 := by
  simp only [resume, Nexting.resume, Nat.add_sub_cancel, hframes]
  cases hdrop : s.frames.drop depth with
  | nil => exact fail_shifts _
  | cons frame rest =>
    obtain ⟨label, waiter⟩ := frame
    cases waiter with
    | host =>
      refine .ended _ (depth + 1) ?_
      rw [← List.tail_drop, hdrop]
      rfl
    | site site => exact .resume hresumes rfl hdrop (findSome?_move?_aborts _ _)

theorem draw_eq {percent : Nat} {lucky : Bool} (h : m.draw percent s = some (lucky, t)) :
    t = { s with store := (s.store.chance percent).2, draws := s.draws + 1 } := by
  unfold draw at h
  split at h
  · exact (congrArg Prod.snd (Option.some.inj h)).symm
  · cases h

theorem call_shifts {i : Instruction} {label : Label} {c : Component} (h : m.Performs s t i)
    (hop : i.op = .nextLinked label) (howner : (m.part s.site.part).linkage.owner? label = some c) :
    Shifts m s (m.call t i.line label c).1 (m.call t i.line label c).2 := by
  have hsame := draw_eq h.lucky
  unfold call
  cases hbody : c.body with
  | system =>
    refine act_shifts fun x store _ ↦ ?_
    exact .stay (by rw [hsame]; rfl) rfl
  | library number =>
    dsimp only
    split
    · exact next_shifts ⟨t, i, h, .inr ⟨hop, c, number, howner, hbody⟩⟩ (by rw [hsame]) (by rw [hsame])
    · exact fail_shifts _
  | host routines =>
    refine act_shifts fun reply store _ ↦ ?_
    cases reply with
    | resumed => exact .stay (by rw [hsame]; rfl) rfl
    | forgot depth => exact forget_shifts depth (by rw [hsame])
    | gaveUp => exact giveUp_shifts
    | failed d => exact fail_shifts _

theorem perform_shifts {i : Instruction} (h : m.Performs s t i) :
    Shifts m s (m.perform t i.line i.op).1 (m.perform t i.line i.op).2 := by
  have hsame := draw_eq h.lucky
  cases hop : i.op with
  | effect e => exact act_shifts fun x store _ ↦ .stay (by rw [hsame]; rfl) rfl
  | next label entry => exact next_shifts ⟨t, i, h, .inl ⟨entry, hop⟩⟩ (by rw [hsame]) (by rw [hsame])
  | nextLinked label =>
    have hsite : t.site = s.site := by rw [hsame]
    simp only [perform, hsite]
    cases howner : (m.part s.site.part).linkage.owner? label with
    | none => exact fail_shifts _
    | some c => exact (call_shifts h hop howner).cons rfl
  | lost n => exact fail_shifts _
  | resume e =>
    refine act_shifts fun v store hrun ↦ ?_
    split
    · exact .stay (by rw [hsame]; rfl) rfl
    · next hbits =>
      obtain ⟨depth, hdepth⟩ : ∃ depth, v.bits.toNat = depth + 1 :=
        Nat.exists_eq_succ_of_ne_zero fun hzero ↦ hbits (BitVec.eq_of_toNat_eq hzero)
      rw [hdepth]
      exact resume_shifts ⟨t, i, e, v, store, h, hop, hrun, hdepth⟩ (by rw [hsame])
  | forget e => exact act_shifts fun v store _ ↦ forget_shifts _ (by rw [hsame])
  | abstain slots => exact .stay (by rw [hsame]; rfl) rfl
  | reinstate slots => exact .stay (by rw [hsame]; rfl) rfl
  | unresolved n => exact fail_shifts _
  | giveUp => exact giveUp_shifts
  | comeFrom => exact .stay (by rw [hsame]; rfl) rfl
  | splat text => exact fail_shifts _

theorem step_shifts (m : Machine) (s : State) : Shifts m s (m.step s).1 (m.step s).2 := by
  unfold step
  cases hleaving : s.leaving with
  | true =>
    simp only [if_true, leaveStatement]
    cases (m.instruction? s).bind (·.trapdoor) with
    | none => exact .stay rfl rfl
    | some trapdoor =>
      dsimp only
      split
      · exact .stay rfl rfl
      · rcases hdraw : m.draw trapdoor.percent s with _ | ⟨_ | _, t⟩
        · exact fail_shifts _
        · exact .stay (by rw [draw_eq hdraw]; rfl) rfl
        · exact .stay (by rw [draw_eq hdraw]; rfl) rfl
  | false =>
    simp only [Bool.false_eq_true, if_false, enterStatement]
    cases hhere : m.instruction? s with
    | none => exact fail_shifts _
    | some i =>
      dsimp only
      split
      · exact .stay rfl rfl
      · next hblocks =>
        rcases hdraw : m.draw i.guard.percent s with _ | ⟨_ | _, t⟩
        · exact fail_shifts _
        · exact .stay (by rw [draw_eq hdraw]; rfl) rfl
        · exact (perform_shifts ⟨hleaving, hhere, Bool.eq_false_iff.mpr hblocks, hdraw⟩).cons rfl

theorem Calls.grows {label : Label} (h : m.Calls s label) {t : State} (hturn : m.turn s = .going t) :
    s.frames.length < t.frames.length := by
  obtain ⟨u, i, hperforms, hop⟩ := h
  have hsame := draw_eq hperforms.lucky
  have hgrown : ∀ target, (m.next u i.line label target).1 = .going t → s.frames.length < t.frames.length := by
    intro target hnext
    simp only [next, Nexting.next] at hnext
    split at hnext
    · next hok =>
      cases hnext
      split at hok
      · cases hok
        rw [hsame]
        exact Nat.lt_succ_self _
      · cases hok
    · cases hnext
  simp only [turn, step, hperforms.entering, Bool.false_eq_true, if_false, enterStatement_some hperforms.here,
    hperforms.admitted, hperforms.lucky] at hturn
  rcases hop with ⟨entry, hop⟩ | ⟨hop, c, number, howner, hbody⟩
  · rw [hop] at hturn
    exact hgrown _ hturn
  · have hsite : u.site = s.site := by rw [hsame]
    simp only [hop, perform, hsite, howner, call, hbody] at hturn
    split at hturn
    · exact hgrown _ hturn
    · cases hturn

end Machine

end Intercal
