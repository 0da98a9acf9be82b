import Intercal.Proofs.Projects

namespace Intercal

def Event.executed? : Event → Option Op
  | .executed op _ _ _ => some op
  | _ => none

def Op.shifts : Op → Bool
  | .next .. | .nextLinked _ | .resume _ | .forget _ => true
  | _ => false

def lastExecuted (log : List Event) : Option Op := (log.filterMap Event.executed?).getLast?

theorem lastExecuted_append (log new : List Event) :
    lastExecuted (log ++ new) = (lastExecuted new).or (lastExecuted log) := by
  rw [lastExecuted, List.filterMap_append, List.getLast?_append]
  rfl

theorem Nexting.executed_aborts {α : Type} (frames : List (Frame α)) :
    (aborts frames).filterMap Event.executed? = [] := by
  rw [List.filterMap_eq_nil_iff]
  intro event hevent
  obtain ⟨f, -, rfl⟩ := List.mem_map.mp hevent
  rfl

theorem Fault.isLocated_of_code {f : Fault} (hend : f.code ≠ .e633) (hcrash : f.code ≠ .e778) : f.isLocated := by
  cases f with
  | fellOff size chunk => exact absurd rfl hend
  | crash => exact absurd rfl hcrash
  | _ => rfl

namespace Machine

variable {m : Machine} {s t : State} {op? : Option Op}

def Unhosted (frames : List (Frame Waiter)) : Prop := ∀ f ∈ frames, f.waiter ≠ .host

def Drops (m : Machine) (s : State) (depth : Nat) : Prop :=
  ∃ t i e v store, m.Performs s t i ∧ (i.op = .resume e ∨ i.op = .forget e) ∧ t.store.run e.value = (.ok v, store) ∧
    v.bits.toNat = depth

/-- What is pending after a step that goes on. A `NEXT` within the part or to a library adds its label; one to the
system library does not. -/
inductive Pends (m : Machine) (s : State) : List (Frame Waiter) → Prop
  | same (calls : ∀ label, ¬ m.Calls s label) (drops : ∀ depth, ¬ m.Drops s depth) : Pends m s s.frames
  | called {label : Label} (calls : m.Calls s label) : Pends m s (⟨label, .site s.site⟩ :: s.frames)
  | dropped {depth : Nat} (drops : m.Drops s depth) : Pends m s (s.frames.drop depth)

inductive Ends (m : Machine) (s : State) (op? : Option Op) : Turn → Prop
  | going {t : State} (op : op? ≠ some .giveUp) (pends : m.Pends s t.frames) : Ends m s op? (.going t)
  | failed {d : Diagnostic} {t : State} (op : op? ≠ some .giveUp) (frames : t.frames = []) :
      Ends m s op? (.ended (.failed d) t)
  | gaveUp {t : State} (op : op? = some .giveUp) (frames : t.frames = []) : Ends m s op? (.ended .gaveUp t)

/-- The same of a step with its log, which does not tell of another statement. -/
structure Carries (m : Machine) (s : State) (op? : Option Op) (step : Step) : Prop where
  ends : m.Ends s op? step.1
  quiet : step.2.filterMap Event.executed? = []

namespace Carries

theorem going (hop : op? ≠ some .giveUp) (hpends : m.Pends s t.frames) : m.Carries s op? (.going t, []) :=
  ⟨.going hop hpends, rfl⟩

theorem fail (hop : op? ≠ some .giveUp) (d : Diagnostic) : m.Carries s op? (t.fail d) :=
  ⟨.failed hop rfl, Nexting.executed_aborts t.frames⟩

theorem giveUp (hop : op? = some .giveUp) : m.Carries s op? t.giveUp :=
  ⟨.gaveUp hop rfl, Nexting.executed_aborts t.frames⟩

theorem act {α : Type} {a : Action α} {k : α → State → Step} {line : Nat} (hop : op? ≠ some .giveUp)
    (hok : ∀ x store, t.store.run a = (.ok x, store) → m.Carries s op? (k x { t with store })) :
    m.Carries s op? (m.act t line a k) := by
  unfold Machine.act
  split
  · next x store hrun => exact hok x store hrun
  · exact .fail hop _

theorem next {line : Nat} {label : Label} {target : Site} (hop : op? ≠ some .giveUp) (hcalls : m.Calls s label)
    (hframes : t.frames = s.frames) (hsite : t.site = s.site) : m.Carries s op? (m.next t line label target) := by
  simp only [Machine.next, Nexting.next, hframes, hsite]
  by_cases hroom : s.frames.length < m.maxDepth
  · rw [if_pos hroom]
    exact ⟨.going hop (.called hcalls), rfl⟩
  · rw [if_neg hroom]
    exact .fail hop _

theorem forget {depth : Nat} (hop : op? ≠ some .giveUp) (hdrops : m.Drops s depth) (hframes : t.frames = s.frames) :
    m.Carries s op? (t.forget depth) := by
  simp only [State.forget, Nexting.forget, Nexting.forgetEvents, hframes]
  constructor
  · exact .going hop (.dropped hdrops)
  · rw [List.filterMap_append, Nexting.executed_aborts]
    rfl

theorem resume {line depth : Nat} (hop : op? ≠ some .giveUp) (hdrops : m.Drops s (depth + 1))
    (hframes : t.frames = s.frames) (hunhosted : Unhosted s.frames) :
    m.Carries s op? (m.resume t line (depth + 1)) := by
  simp only [Machine.resume, Nexting.resume, Nexting.resumeEvents, hframes, Nat.add_sub_cancel]
  cases hdrop : s.frames.drop depth with
  | nil => exact .fail hop _
  | cons frame rest =>
    have hframe := hunhosted frame (List.mem_of_mem_drop (hdrop ▸ List.mem_cons_self))
    have hrest : s.frames.drop (depth + 1) = rest := by rw [← List.tail_drop, hdrop, List.tail_cons]
    obtain ⟨label, waiter⟩ := frame
    cases waiter with
    | host => exact absurd rfl hframe
    | site site =>
      constructor
      · refine .going hop ?_
        rw [← hrest]
        exact .dropped hdrops
      · rw [List.filterMap_append, Nexting.executed_aborts]
        rfl

end Carries

theorem Performs.calls_iff {i : Instruction} (h : m.Performs s t i) {label : Label} :
    m.Calls s label ↔ (∃ entry, i.op = .next label entry) ∨ i.op = .nextLinked label ∧
      ∃ c number, (m.part s.site.part).linkage.owner? label = some c ∧ c.body = .library number := by
  constructor
  · rintro ⟨t', i', h', hop⟩
    cases Option.some.inj (h'.here.symm.trans h.here)
    exact hop
  · intro hop
    exact ⟨t, i, h, hop⟩

theorem Performs.op_of_drops {i : Instruction} (h : m.Performs s t i) {depth : Nat} (hdrops : m.Drops s depth) :
    ∃ e, i.op = .resume e ∨ i.op = .forget e := by
  obtain ⟨t', i', e, v, store, h', hop, -⟩ := hdrops
  cases Option.some.inj (h'.here.symm.trans h.here)
  exact ⟨e, hop⟩

theorem Performs.pends {i : Instruction} (h : m.Performs s t i) (hop : i.op.shifts = false) : m.Pends s s.frames := by
  refine .same (fun label hcalls ↦ ?_) fun depth hdrops ↦ ?_
  · rcases h.calls_iff.mp hcalls with ⟨entry, hnext⟩ | ⟨hlinked, -⟩
    · rw [hnext] at hop
      cases hop
    · rw [hlinked] at hop
      cases hop
  · obtain ⟨e, hresume | hforget⟩ := h.op_of_drops hdrops
    · rw [hresume] at hop
      cases hop
    · rw [hforget] at hop
      cases hop

theorem Performs.pends_system {i : Instruction} (h : m.Performs s t i) {label : Label} {c : Component}
    (hop : i.op = .nextLinked label) (howner : (m.part s.site.part).linkage.owner? label = some c)
    (hbody : c.body = .system) : m.Pends s s.frames := by
  refine .same (fun other hcalls ↦ ?_) fun depth hdrops ↦ ?_
  · rcases h.calls_iff.mp hcalls with ⟨entry, hnext⟩ | ⟨hlinked, d, number, hd, hlibrary⟩
    · rw [hop] at hnext
      cases hnext
    · rw [hop] at hlinked
      cases hlinked
      rw [howner] at hd
      cases hd
      rw [hbody] at hlibrary
      cases hlibrary
  · obtain ⟨e, hresume | hforget⟩ := h.op_of_drops hdrops
    · rw [hop] at hresume
      cases hresume
    · rw [hop] at hforget
      cases hforget

theorem call_carries {i : Instruction} {label : Label} {c : Component} (h : m.Performs s t i)
    (hop : i.op = .nextLinked label) (howner : (m.part s.site.part).linkage.owner? label = some c)
    (hhost : ¬ m.CallsHost s) (hne : op? ≠ some .giveUp) : m.Carries s op? (m.call t i.line label c) := by
  have hsame := draw_eq h.lucky
  have hframes : t.frames = s.frames := by rw [hsame]
  unfold Machine.call
  cases hbody : c.body with
  | system =>
    refine .act hne fun x store _ ↦ .going hne ?_
    rw [State.done, hframes]
    exact h.pends_system hop howner hbody
  | library number =>
    dsimp only
    split
    · exact .next hne ⟨t, i, h, .inr ⟨hop, c, number, howner, hbody⟩⟩ hframes (by rw [hsame])
    · exact .fail hne _
  | host routines => exact absurd ⟨t, i, label, c, routines, h, hop, howner, hbody⟩ hhost

theorem perform_carries {i : Instruction} (h : m.Performs s t i) (hhost : ¬ m.CallsHost s)
    (hunhosted : Unhosted s.frames) : m.Carries s (some i.op) (m.perform t i.line i.op) := by
  have hsame := draw_eq h.lucky
  have hframes : t.frames = s.frames := by rw [hsame]
  have hsite : t.site = s.site := by rw [hsame]
  by_cases hgiveUp : i.op = .giveUp
  · rw [hgiveUp]
    exact .giveUp rfl
  have hne : some i.op ≠ some .giveUp := fun heq ↦ hgiveUp (Option.some.inj heq)
  have hpends (hshifts : i.op.shifts = false) : m.Pends s t.frames := by
    rw [hframes]
    exact h.pends hshifts
  generalize some i.op = op? at hne
  cases hop : i.op with
  | effect e =>
    rw [perform]
    exact .act hne fun x store _ ↦ .going hne (hpends (by rw [hop]; rfl))
  | next label entry => exact .next hne ⟨t, i, h, .inl ⟨entry, hop⟩⟩ hframes hsite
  | nextLinked label =>
    simp only [perform, hsite]
    cases howner : (m.part s.site.part).linkage.owner? label with
    | none => exact .fail hne _
    | some c =>
      have hcall := call_carries h hop howner hhost hne
      exact ⟨hcall.ends, hcall.quiet⟩
  | lost n => exact .fail hne _
  | resume e =>
    rw [perform]
    refine .act hne fun v store hrun ↦ ?_
    have hdrops : m.Drops s v.bits.toNat := ⟨t, i, e, v, store, h, .inl hop, hrun, rfl⟩
    split
    · next hzero =>
      rw [hzero] at hdrops
      refine .going hne ?_
      rw [State.done, hframes]
      exact .dropped hdrops
    · next hnonzero =>
      obtain ⟨depth, hdepth⟩ : ∃ depth, v.bits.toNat = depth + 1 :=
        Nat.exists_eq_succ_of_ne_zero fun hzero ↦ hnonzero (BitVec.eq_of_toNat_eq hzero)
      rw [hdepth] at hdrops ⊢
      exact .resume hne hdrops hframes hunhosted
  | forget e =>
    rw [perform]
    refine .act hne fun v store hrun ↦ ?_
    exact .forget hne ⟨t, i, e, v, store, h, .inr hop, hrun, rfl⟩ hframes
  | abstain slots => exact .going hne (hpends (by rw [hop]; rfl))
  | reinstate slots => exact .going hne (hpends (by rw [hop]; rfl))
  | unresolved n => exact .fail hne _
  | giveUp => exact absurd hop hgiveUp
  | comeFrom => exact .going hne (hpends (by rw [hop]; rfl))
  | splat text => exact .fail hne _

theorem pends_of_idle (h : ∀ t i, ¬ m.Performs s t i) : m.Pends s s.frames := by
  refine .same (fun label hcalls ↦ ?_) fun depth hdrops ↦ ?_
  · obtain ⟨t, i, hperforms, -⟩ := hcalls
    exact h t i hperforms
  · obtain ⟨t, i, -, -, -, hperforms, -⟩ := hdrops
    exact h t i hperforms

theorem leaveStatement_carries (hleaving : s.leaving = true) (hne : op? ≠ some .giveUp) :
    m.Carries s op? (m.leaveStatement s) := by
  have hidle : m.Pends s s.frames := by
    refine pends_of_idle fun t i h ↦ ?_
    rw [h.entering] at hleaving
    cases hleaving
  unfold leaveStatement
  cases (m.instruction? s).bind (·.trapdoor) with
  | none => exact .going hne hidle
  | some trapdoor =>
    dsimp only
    split
    · exact .going hne hidle
    · rcases hdraw : m.draw trapdoor.percent s with _ | ⟨_ | _, t⟩
      · exact .fail hne _
      · rw [draw_eq hdraw]
        exact .going hne hidle
      · rw [draw_eq hdraw]
        exact ⟨.going hne hidle, rfl⟩

/-- A step executes one statement or none, and the log tells which. -/
theorem step_ends (hhost : ¬ m.CallsHost s) (hunhosted : Unhosted s.frames) :
    ∃ op?, m.Ends s op? (m.step s).1 ∧ (m.step s).2.filterMap Event.executed? = op?.toList := by
  have hnone : (none : Option Op) ≠ some .giveUp := by
    intro heq
    cases heq
  have hidle {step : Step} (h : m.Carries s none step) :
      ∃ op?, m.Ends s op? step.1 ∧ step.2.filterMap Event.executed? = op?.toList := ⟨none, h.ends, h.quiet⟩
  unfold step
  cases hleaving : s.leaving with
  | true => exact hidle (leaveStatement_carries hleaving hnone)
  | false =>
    simp only [Bool.false_eq_true, if_false, enterStatement]
    cases hhere : m.instruction? s with
    | none => exact hidle (.fail hnone _)
    | some i =>
      dsimp only
      split
      · next hblocks =>
        refine hidle ⟨.going hnone (pends_of_idle fun t j h ↦ ?_), rfl⟩
        cases Option.some.inj (h.here.symm.trans hhere)
        rw [h.admitted] at hblocks
        cases hblocks
      · next hblocks =>
        rcases hdraw : m.draw i.guard.percent s with _ | ⟨_ | _, t⟩
        · exact hidle (.fail hnone _)
        · have hunlucky : ∀ u j, ¬ m.Performs s u j := by
            intro u j h
            cases Option.some.inj (h.here.symm.trans hhere)
            cases hdraw.symm.trans h.lucky
          rw [draw_eq hdraw]
          exact hidle ⟨.going hnone (pends_of_idle hunlucky), rfl⟩
        · have hperforms : m.Performs s t i := ⟨hleaving, hhere, Bool.eq_false_iff.mpr hblocks, hdraw⟩
          have hperform := perform_carries hperforms hhost hunhosted
          exact ⟨some i.op, hperform.ends, congrArg (i.op :: ·) hperform.quiet⟩

theorem Pends.unhosted {frames : List (Frame Waiter)} (h : m.Pends s frames) (hunhosted : Unhosted s.frames) :
    Unhosted frames := by
  intro f hf
  cases h with
  | same calls drops => exact hunhosted f hf
  | called calls =>
    rcases List.mem_cons.mp hf with rfl | hf
    · intro heq
      cases heq
    · exact hunhosted f hf
  | dropped drops => exact hunhosted f (List.mem_of_mem_drop hf)

theorem Ends.of_ended {e : Ending} (h : m.Ends s op? (.ended e t)) :
    t.frames = [] ∧ (e = .gaveUp ∨ ∃ d, e = .failed d) ∧ (e = .gaveUp ↔ op? = some .giveUp) := by
  cases h with
  | @failed d _ op frames =>
    refine ⟨frames, .inr ⟨d, rfl⟩, iff_of_false ?_ op⟩
    intro heq
    cases heq
  | gaveUp op frames => exact ⟨frames, .inl rfl, iff_of_true rfl op⟩

theorem lastExecuted_toList {log : List Event} (h : log.filterMap Event.executed? = op?.toList) :
    lastExecuted log = op? := by
  rw [lastExecuted, h]
  cases op? <;> rfl

/-- Nothing is pending when a run has ended, and it was given up just if the last statement was a `GIVE UP`. -/
theorem run_ends (hhost : ∀ s, ¬ m.CallsHost s) (hunhosted : Unhosted s.frames) (events : Array Event)
    (n : Nat) :
    (∀ e t, (m.run events n s).1 = .ended e t → t.frames = [] ∧ (e = .gaveUp ∨ ∃ d, e = .failed d)) ∧
      ∃ log, (m.run events n s).2.toList = events.toList ++ log ∧
        ((∃ t, (m.run events n s).1 = .ended .gaveUp t) ↔ lastExecuted log = some .giveUp) := by
  induction n generalizing s events with
  | zero =>
    refine ⟨?_, [], (List.append_nil _).symm, ?_⟩
    · intro e t h
      cases h
    · constructor
      · rintro ⟨t, h⟩
        cases h
      · intro h
        cases h
  | succ n ih =>
    obtain ⟨op?, hends, hlog⟩ := step_ends (hhost s) hunhosted
    have hlast := lastExecuted_toList hlog
    rw [run]
    rcases hstep : m.step s with ⟨t | ⟨e, t⟩, new⟩
    · rw [hstep] at hends hlast
      cases hends with
      | going op pends =>
        obtain ⟨hended, log, htold, hgaveUp⟩ := ih (pends.unhosted hunhosted) (events ++ new)
        refine ⟨hended, new ++ log, ?_, ?_⟩
        · rw [htold, Array.toList_appendList, List.append_assoc]
        · -- The step itself executes no `GIVE UP`, so it is for the rest of the run to tell.
          rw [hgaveUp, lastExecuted_append, hlast]
          cases lastExecuted log with
          | none =>
            constructor
            · intro h
              cases h
            · intro h
              exact absurd h op
          | some last => exact Iff.rfl
    · rw [hstep] at hends hlast
      obtain ⟨hframes, hkind, hiff⟩ := hends.of_ended
      refine ⟨?_, new, Array.toList_appendList, ?_⟩
      · intro e' t' heq
        cases heq
        exact ⟨hframes, hkind⟩
      · rw [hlast, ← hiff]
        constructor
        · rintro ⟨t', heq⟩
          cases heq
          rfl
        · rintro rfl
          exact ⟨t, rfl⟩

/-- Where a failure is reported: at the beginning of the line of the statement that was executed, or nowhere if control
ran past the last one. -/
inductive Places (m : Machine) (s : State) (d : Diagnostic) : Prop
  | statement {t : State} {i : Instruction} (performs : m.Performs s t i) (code : d.code ≠ .e633)
      (located : d.location = some ⟨i.line, 1, some (m.chunk s).name⟩)
  | fellOff (entering : s.leaving = false) (beyond : s.site.index = (m.chunk s).size) (code : d.code = .e633)
      (unlocated : d.location = none)
      (noted : d.note = some ("after statement " ++ toString (m.chunk s).size ++ " of " ++ (m.chunk s).name))

theorem Raises.code_ne {op : Op} {f : Fault} (h : m.Raises s op f) : f.code ≠ .e633 := by
  cases h with
  | store h => exact (Fault.code_of_ofStore h).2
  | _ => exact fun heq ↦ nomatch heq

theorem orTraced_report (line : Nat) (f : Fault) (pending : List Label) :
    (m.report s line f).orTraced pending = { m.report s line f with trace := pending.map (·.value) } := by
  rw [Diagnostic.orTraced, if_pos]
  unfold report
  split <;> rfl

theorem turn_reports {d : Diagnostic} (hhost : ¬ m.CallsHost s) (hs : m.InRange s)
    (hturn : m.turn s = .ended (.failed d) t) (hcrash : d.code ≠ .e778) :
    d.trace = (Nexting.labels s.frames).map (·.value) ∧ m.Places s d := by
  obtain ⟨d', hfails, rfl⟩ := turn_fails m s d t hturn
  cases hfails with
  | fellOff entering here =>
    have hend := hs.instruction?_eq_none_iff.mp here
    refine ⟨rfl, .fellOff entering hend rfl rfl ?_⟩
    rw [← hend]
    rfl
  | crash => exact absurd rfl hcrash
  | @raised u i f performs raises =>
    rw [orTraced_report] at hcrash ⊢
    refine ⟨rfl, .statement performs ?_ ?_⟩
    · exact fun hcode ↦ raises.code_ne ((code_report m s i.line f).symm.trans hcode)
    · have hlocated : f.isLocated :=
        Fault.isLocated_of_code raises.code_ne fun hcode ↦ hcrash ((code_report m s i.line f).trans hcode)
      simp only [report, hlocated, if_true]
      rfl
  | host performs op owner body => exact absurd ⟨_, _, _, _, _, performs, op, owner, body⟩ hhost

theorem turn_pends (hhost : ¬ m.CallsHost s) (hunhosted : Unhosted s.frames) (hturn : m.turn s = .going t) :
    m.Pends s t.frames := by
  obtain ⟨op?, hends, -⟩ := step_ends hhost hunhosted
  rw [← turn, hturn] at hends
  cases hends with
  | going op pends => exact pends

theorem advance_unhosted (hhost : ∀ s, ¬ m.CallsHost s) (hunhosted : Unhosted s.frames) {k : Nat}
    (h : advance m.turn k s = .going t) : Unhosted t.frames := by
  induction k generalizing t with
  | zero =>
    cases h
    exact hunhosted
  | succ k ih =>
    rw [advance_succ] at h
    cases hk : advance m.turn k s with
    | going u =>
      rw [hk] at h
      exact (turn_pends (hhost u) (ih hk) h).unhosted (ih hk)
    | ended e u =>
      rw [hk] at h
      cases h

end Machine

namespace Project

/-- A run that fails was at a statement, whose line and chunk are reported, or right behind the last one, which is noted
instead; what it reports as pending are the labels of the frames, most recent first. Each `NEXT` within the program or
to a library has put its own frame on them, and one to the system library none. When a run is over, nothing is pending,
and it did not fail just if the last statement that it executed was a `GIVE UP`. -/
theorem failures_located_and_traced {options : Options} {p : Project} {program : Chunk}
    (hp : (ofOptions options).Leads p) (hprogram : program.Compiled) (store : Store) (maxDraws : Option Nat)
    (events : Array Event) (n : Nat) :
    (∀ d t, ((p.machine program maxDraws).run events n (p.start program store)).1 = .ended (.failed d) t →
      d.code ≠ .e778 →
      ∃ k s, k < n ∧ ((p.machine program maxDraws).run events k (p.start program store)).1 = .going s ∧
        (p.machine program maxDraws).turn s = .ended (.failed d) t ∧
        d.trace = (Nexting.labels s.frames).map (·.value) ∧ (p.machine program maxDraws).Places s d) ∧
    (p.start program store).frames = [] ∧
    (∀ k s t, ((p.machine program maxDraws).run events k (p.start program store)).1 = .going s →
      (p.machine program maxDraws).turn s = .going t → (p.machine program maxDraws).Pends s t.frames) ∧
    (∀ e t, ((p.machine program maxDraws).run events n (p.start program store)).1 = .ended e t →
      t.frames = [] ∧ (e = .gaveUp ∨ ∃ d, e = .failed d)) ∧
    ∃ log, ((p.machine program maxDraws).run events n (p.start program store)).2.toList = events.toList ++ log ∧
      ((∃ t, ((p.machine program maxDraws).run events n (p.start program store)).1 = .ended .gaveUp t) ↔
        lastExecuted log = some .giveUp) := by
  have hsound := hp.sound (.ofOptions options)
  have hhost := hsound.not_callsHost program maxDraws
  have hcompiled := hsound.compiled hprogram maxDraws
  have hunhosted : Machine.Unhosted (p.start program store).frames := fun f hf ↦ absurd hf List.not_mem_nil
  refine ⟨?_, rfl, ?_, Machine.run_ends hhost hunhosted events n⟩
  · intro d t hrun hcrash
    rw [Machine.run_fst] at hrun
    obtain ⟨k, s, hk, hs, hturn⟩ := Machine.advance_ended hrun
    have hrange := ((hsound.start program maxDraws store).inRange hcompiled).advance hcompiled k
    rw [hs] at hrange
    obtain ⟨htrace, hplaces⟩ := Machine.turn_reports (hhost s) hrange hturn hcrash
    exact ⟨k, s, hk, by rw [Machine.run_fst, hs], hturn, htrace, hplaces⟩
  · intro k s t hs hturn
    rw [Machine.run_fst] at hs
    exact Machine.turn_pends (hhost s) (Machine.advance_unhosted hhost hunhosted hs) hturn

def overreach : List Statement :=
  [⟨0, ⟨1, 1, 0⟩, {}, .next 10, "DO (10) NEXT"⟩,
    ⟨1, ⟨2, 1, 13⟩, { label := some 10 }, .resume (.constant 2 false), "(10) DO RESUME #2"⟩]

theorem failures_located_and_traced_overreach :
    ∃ program log d t s,
      Chunk.compile { name := "overreach", optimize := false } overreach = .ok (program, log) ∧
      ((plain.machine program none).run #[] 2 (plain.start program {})).1 = .ended (.failed d) t ∧ d.code = .e632 ∧
      d.trace = [10] ∧ d.location = some ⟨2, 1, some "overreach"⟩ ∧ t.frames = [] ∧
      d.trace = (Nexting.labels s.frames).map (·.value) ∧ (plain.machine program none).Places s d := by
  obtain ⟨program, log, d, t, hcompile, hrun, hcode, htrace, hlocation⟩ : ∃ program log d t,
      Chunk.compile { name := "overreach", optimize := false } overreach = .ok (program, log) ∧
      ((plain.machine program none).run #[] 2 (plain.start program {})).1 = .ended (.failed d) t ∧ d.code = .e632 ∧
      d.trace = [10] ∧ d.location = some ⟨2, 1, some "overreach"⟩ := ⟨_, _, _, _, rfl, rfl, rfl, rfl, rfl⟩
  obtain ⟨hfailed, -, -, hended, -⟩ :=
    @failures_located_and_traced { optimize := false } plain program .refl ⟨_, _, _, hcompile⟩ {} none #[] 2
  obtain ⟨k, s, -, -, -, hlabels, hplaces⟩ := hfailed d t hrun (by rw [hcode]; decide)
  exact ⟨program, log, d, t, s, hcompile, hrun, hcode, htrace, hlocation, (hended _ _ hrun).1, hlabels, hplaces⟩

end Project

end Intercal
