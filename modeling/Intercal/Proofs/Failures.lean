import Intercal.Proofs.Shifts
import Intercal.Proofs.Upkeep

namespace Intercal

theorem Fault.code_of_ofStore {f : Fault} (h : f.ofStore) : f.code ≠ .e129 ∧ f.code ≠ .e633 := by
  cases f <;> simp_all [ofStore, code]

/-- What is no routine is refused before anything else is done. -/
theorem SystemLibrary.call_of_not_mem {n : Nat} (h : n ∉ routines) : call n = throw (.lost n) := by
  unfold call
  split
  case h_18 => rfl
  all_goals exact absurd (by decide) h

namespace Machine

variable {m : Machine} {s t : State}

/-- The faults that an operation can raise where control stands. A `NEXT` to a linked label gets lost if the label has
no owner, if the library that owns it has no such label, or if the system library has no such routine. -/
inductive Raises (m : Machine) (s : State) : Op → Fault → Prop
  | store {op : Op} {f : Fault} (h : f.ofStore) : Raises m s op f
  | tooDeep (op : Op) (limit : Nat) : Raises m s op (.tooDeep limit)
  | rupture (op : Op) (depth pending : Nat) : Raises m s op (.rupture depth pending)
  | lost (n : Nat) : Raises m s (.lost n) (.lost n)
  | noOwner {label : Label} (owner : (m.part s.site.part).linkage.owner? label = none) :
      Raises m s (.nextLinked label) (.lost label.value)
  | noEntry {label : Label} {c : Component} {number : Nat}
      (owner : (m.part s.site.part).linkage.owner? label = some c) (body : c.body = .library number)
      (entry : (m.part number).chunk.entry? label = none) : Raises m s (.nextLinked label) (.lost label.value)
  | noRoutine {label : Label} {c : Component} (owner : (m.part s.site.part).linkage.owner? label = some c)
      (body : c.body = .system) (absent : label.value ∉ SystemLibrary.routines) :
      Raises m s (.nextLinked label) (.lost label.value)
  | unresolved (n : Nat) : Raises m s (.unresolved n) (.unresolved n)
  | splat (text : String) : Raises m s (.splat text) (.splat text)

inductive Fails (m : Machine) (s : State) : Diagnostic → Prop
  | fellOff (entering : s.leaving = false) (here : m.instruction? s = none) :
      Fails m s (Fault.fellOff s.site.index (m.chunk s).name).diagnostic
  | crash : Fails m s Fault.crash.diagnostic
  | raised {t : State} {i : Instruction} {f : Fault} (performs : m.Performs s t i) (raises : m.Raises s i.op f) :
      Fails m s (m.report s i.line f)
  | host {t : State} {i : Instruction} {label : Label} {c : Component} {routines : Host} {d : Diagnostic}
      (performs : m.Performs s t i) (op : i.op = .nextLinked label)
      (owner : (m.part s.site.part).linkage.owner? label = some c) (body : c.body = .host routines) : Fails m s d

/-- If this is the end and a failure, then one that is allowed, and the pending labels are those given. -/
def FailsOnly (P : Diagnostic → Prop) (pending : List Label) (turn : Turn) : Prop :=
  ∀ d u, turn = .ended (.failed d) u → ∃ d', P d' ∧ d = d'.orTraced pending

namespace FailsOnly

variable {P : Diagnostic → Prop} {pending : List Label} {line : Nat}

theorem going : FailsOnly P pending (.going t) := by
  intro d u h
  cases h

theorem gaveUp : FailsOnly P pending (.ended .gaveUp t) := by
  intro d u h
  cases h

theorem returned : FailsOnly P pending (.ended .returned t) := by
  intro d u h
  cases h

theorem fail {d : Diagnostic} (hd : P d) (hpending : Nexting.labels t.frames = pending) :
    FailsOnly P pending (t.fail d).1 := by
  intro d' u h
  cases h
  exact ⟨d, hd, by rw [hpending]⟩

theorem act {α : Type} {a : Action α} {k : α → State → Step} (hpending : Nexting.labels t.frames = pending)
    (herror : ∀ f, (t.store.run a).1 = .error f → P (m.report t line f))
    (hok : ∀ x store, FailsOnly P pending (k x { t with store }).1) :
    FailsOnly P pending (m.act t line a k).1 := by
  unfold Machine.act
  split
  · exact hok _ _
  · next f store hrun => exact .fail (herror f (by rw [hrun])) hpending

theorem next {label : Label} {target : Site} (hpending : Nexting.labels t.frames = pending)
    (h : P (m.report t line (.tooDeep m.maxDepth))) : FailsOnly P pending (m.next t line label target).1 := by
  unfold Machine.next Nexting.next
  split
  · exact going
  · next f hnext =>
    split at hnext <;> cases hnext
    exact .fail h hpending

theorem resume {depth : Nat} (hpending : Nexting.labels t.frames = pending)
    (h : P (m.report t line (.rupture depth t.frames.length))) :
    FailsOnly P pending (m.resume t line depth).1 := by
  unfold Machine.resume Nexting.resume
  split
  · dsimp only
    split
    · exact going
    · exact returned
  · next f hresume =>
    split at hresume <;> cases hresume
    exact .fail h hpending

end FailsOnly

theorem report_draw {percent : Nat} {lucky : Bool} (h : m.draw percent s = some (lucky, t)) (line : Nat) (f : Fault) :
    m.report t line f = m.report s line f := by
  rw [draw_eq h]
  rfl

theorem call_fails {i : Instruction} {label : Label} {c : Component} (h : m.Performs s t i)
    (hop : i.op = .nextLinked label) (howner : (m.part s.site.part).linkage.owner? label = some c) :
    FailsOnly (Fails m s) (Nexting.labels s.frames) (m.call t i.line label c).1 := by
  have hsame := draw_eq h.lucky
  have hpending : Nexting.labels t.frames = Nexting.labels s.frames := by rw [hsame]
  have hraised {f : Fault} (hf : m.Raises s i.op f) : Fails m s (m.report t i.line f) := by
    rw [report_draw h.lucky]
    exact .raised h hf
  unfold Machine.call
  cases hbody : c.body with
  | system =>
    refine .act hpending (fun f hf ↦ hraised ?_) fun _ _ ↦ .going
    by_cases hroutine : label.value ∈ SystemLibrary.routines
    · exact .store ((Store.Steady.mild.call (.inl hroutine) t.store trivial).2 f hf)
    · rw [SystemLibrary.call_of_not_mem hroutine] at hf
      cases hf
      rw [hop]
      exact .noRoutine howner hbody hroutine
  | library number =>
    dsimp only
    split
    · exact .next hpending (hraised (.tooDeep _ _))
    · next hentry =>
      refine .fail (hraised ?_) hpending
      rw [hop]
      exact .noEntry howner hbody hentry
  | host routines =>
    refine .act hpending (fun f _ ↦ .host h hop howner hbody) fun reply store ↦ ?_
    cases reply with
    | resumed => exact .going
    | forgot depth => exact .going
    | gaveUp => exact .gaveUp
    | failed d => exact .fail (.host h hop howner hbody) hpending

theorem perform_fails {i : Instruction} (h : m.Performs s t i) :
    FailsOnly (Fails m s) (Nexting.labels s.frames) (m.perform t i.line i.op).1 := by
  have hsame := draw_eq h.lucky
  have hpending : Nexting.labels t.frames = Nexting.labels s.frames := by rw [hsame]
  have hraised {f : Fault} (hf : m.Raises s i.op f) : Fails m s (m.report t i.line f) := by
    rw [report_draw h.lucky]
    exact .raised h hf
  cases hop : i.op with
  | effect e =>
    refine .act hpending (fun f hf ↦ hraised (.store ?_)) fun _ _ ↦ .going
    exact (Store.Steady.mild.perform e t.store trivial).2 f hf
  | next label entry => exact .next hpending (hraised (.tooDeep _ _))
  | nextLinked label =>
    have hsite : t.site = s.site := by rw [hsame]
    simp only [perform, hsite]
    cases howner : (m.part s.site.part).linkage.owner? label with
    | none => exact .fail (hraised (hop ▸ .noOwner howner)) hpending
    | some c => exact call_fails h hop howner
  | lost n => exact .fail (hraised (hop ▸ .lost n)) hpending
  | resume e =>
    refine .act hpending (fun f hf ↦ hraised (.store ?_)) fun v store ↦ ?_
    · exact (Store.Steady.mild.aside.value e t.store trivial).2 f hf
    · split
      · exact .going
      · exact .resume hpending (hraised (.rupture _ _ _))
  | forget e =>
    refine .act hpending (fun f hf ↦ hraised (.store ?_)) fun v store ↦ .going
    exact (Store.Steady.mild.aside.value e t.store trivial).2 f hf
  | abstain slots => exact .going
  | reinstate slots => exact .going
  | unresolved n => exact .fail (hraised (hop ▸ .unresolved n)) hpending
  | giveUp => exact .gaveUp
  | comeFrom => exact .going
  | splat text => exact .fail (hraised (hop ▸ .splat text)) hpending

/-- A step that fails has one of the reasons above, and reports the labels that are pending. -/
theorem turn_fails (m : Machine) (s : State) : FailsOnly (Fails m s) (Nexting.labels s.frames) (m.turn s) := by
  unfold turn step
  cases hleaving : s.leaving with
  | true =>
    simp only [if_true, leaveStatement]
    cases (m.instruction? s).bind (·.trapdoor) with
    | none => exact .going
    | some trapdoor =>
      dsimp only
      split
      · exact .going
      · rcases m.draw trapdoor.percent s with _ | ⟨_ | _, t⟩
        · exact .fail .crash rfl
        · exact .going
        · exact .going
  | false =>
    simp only [Bool.false_eq_true, if_false]
    cases hhere : m.instruction? s with
    | none =>
      rw [enterStatement_none hhere]
      exact .fail (.fellOff hleaving hhere) rfl
    | some i =>
      rw [enterStatement_some hhere]
      split
      · exact .going
      · next hblocks =>
        rcases hdraw : m.draw i.guard.percent s with _ | ⟨_ | _, t⟩
        · exact .fail .crash rfl
        · exact .going
        · exact perform_fails ⟨hleaving, hhere, Bool.eq_false_iff.mpr hblocks, hdraw⟩

theorem code_orTraced (d : Diagnostic) (pending : List Label) : (d.orTraced pending).code = d.code := by
  unfold Diagnostic.orTraced
  split <;> rfl

theorem code_report (m : Machine) (s : State) (line : Nat) (f : Fault) : (m.report s line f).code = f.code := by
  unfold report
  split <;> rfl

end Machine

end Intercal
