import Intercal.Proofs.Coverage
import Intercal.Proofs.Lockstep

namespace Intercal

namespace Machine

/-- The states of the machine and of the script agree: everything is the same, but for the switches of the program,
which cover the flags of its statements. -/
structure Agrees (p : Program) (number : Nat) (s t : State) : Prop where
  site : s.site = t.site
  leaving : s.leaving = t.leaving
  frames : s.frames = t.frames
  store : s.store = t.store
  libraries (k : Nat) : k ≠ number → s.switches[k]? = t.switches[k]?
  program : ∃ slots flags, s.switches[number]? = some slots ∧ t.switches[number]? = some flags ∧ p.Covers slots flags

namespace Agrees

variable {p : Program} {number : Nat} {s t : State} {m : Machine}

theorem done (h : Agrees p number s t) : Agrees p number s.done t.done :=
  ⟨h.site, rfl, h.frames, h.store, h.libraries, h.program⟩

theorem withStore (h : Agrees p number s t) (store : Store) (d e : Nat) :
    Agrees p number { s with store, draws := d } { t with store, draws := e } :=
  ⟨h.site, h.leaving, h.frames, rfl, h.libraries, h.program⟩

theorem goTo (h : Agrees p number s t) (index : Nat) : Agrees p number (s.goTo index) (t.goTo index) :=
  ⟨by simp only [State.goTo, h.site], h.leaving, h.frames, h.store, h.libraries, h.program⟩

theorem follow (h : Agrees p number s t) :
    Agrees p number { s.goTo (s.site.index + 1) with leaving := false }
      { t.goTo (t.site.index + 1) with leaving := false } :=
  ⟨by simp only [State.goTo, h.site], rfl, h.frames, h.store, h.libraries, h.program⟩

theorem report_eq (h : Agrees p number s t) (line : Nat) (f : Fault) : m.report s line f = m.report t line f := by
  simp only [report, chunk, h.site]

theorem fail (h : Agrees p number s t) (d : Diagnostic) : Alike (Agrees p number) (s.fail d).1 (t.fail d).1 := by
  simp only [State.fail, h.frames]
  exact .ended _ ⟨h.site, h.leaving, rfl, h.store, h.libraries, h.program⟩

theorem fault (h : Agrees p number s t) (line : Nat) (f : Fault) :
    Alike (Agrees p number) (s.fail (m.report s line f)).1 (t.fail (m.report t line f)).1 := by
  rw [h.report_eq]
  exact h.fail _

theorem giveUp (h : Agrees p number s t) : Alike (Agrees p number) s.giveUp.1 t.giveUp.1 :=
  .ended _ ⟨h.site, h.leaving, rfl, h.store, h.libraries, h.program⟩

theorem forget (h : Agrees p number s t) (depth : Nat) :
    Alike (Agrees p number) (s.forget depth).1 (t.forget depth).1 := by
  simp only [State.forget, h.frames]
  exact .going ⟨h.site, rfl, rfl, h.store, h.libraries, h.program⟩

theorem act (h : Agrees p number s t) {α : Type} {line : Nat} {a : Action α} {f g : α → State → Step}
    (hk : ∀ x u v, Agrees p number u v → Alike (Agrees p number) (f x u).1 (g x v).1) :
    Alike (Agrees p number) (m.act s line a f).1 (m.act t line a g).1 := by
  simp only [Machine.act, h.store, h.report_eq]
  rcases t.store.run a with ⟨fault | x, store⟩
  · exact (h.withStore store s.draws t.draws).fail _
  · exact hk x _ _ (h.withStore store s.draws t.draws)

theorem next (h : Agrees p number s t) (line : Nat) (label : Label) (target : Site) :
    Alike (Agrees p number) (m.next s line label target).1 (m.next t line label target).1 := by
  simp only [Machine.next, h.site, h.frames, h.report_eq]
  split
  · exact .going ⟨rfl, h.leaving, rfl, h.store, h.libraries, h.program⟩
  · exact h.fail _

theorem resume (h : Agrees p number s t) (line depth : Nat) :
    Alike (Agrees p number) (m.resume s line depth).1 (m.resume t line depth).1 := by
  simp only [Machine.resume, h.frames, h.report_eq]
  split
  · next frame frames _ =>
    cases frame.waiter with
    | host => exact .ended _ ⟨h.site, h.leaving, rfl, h.store, h.libraries, h.program⟩
    | site site => exact .going ⟨rfl, rfl, rfl, h.store, h.libraries, h.program⟩
  · exact h.fail _

theorem call (h : Agrees p number s t) (line : Nat) (label : Label) (c : Component) :
    Alike (Agrees p number) (m.call s line label c).1 (m.call t line label c).1 := by
  unfold Machine.call
  cases c.body with
  | system => exact h.act fun _ u v huv ↦ .going huv.done
  | library number =>
    dsimp only
    split
    · exact h.next line label _
    · exact h.fault line _
  | host routines =>
    refine h.act fun reply u v huv ↦ ?_
    cases reply with
    | resumed => exact .going huv.done
    | forgot depth => exact huv.forget depth
    | gaveUp => exact huv.giveUp
    | failed d =>
      simp only [chunk, huv.site]
      exact huv.fail _

theorem setSwitches_library (h : Agrees p number s t) (hne : s.site.part ≠ number) (slots : List Nat) (b : Bool) :
    Agrees p number (s.setSwitches slots b) (t.setSwitches slots b) := by
  refine ⟨h.site, h.leaving, h.frames, h.store, fun k hk ↦ ?_, ?_⟩
  · simp only [State.setSwitches, Array.getElem?_modify, h.site, h.libraries k hk]
  · simpa only [State.setSwitches, Array.getElem?_modify, ← h.site, hne, if_false] using h.program

/-- A statement does the same to both states, unless it switches slots of the program. -/
theorem perform (h : Agrees p number s t) (line : Nat) {op : Op}
    (hop : ∀ slots, op = .abstain slots ∨ op = .reinstate slots → s.site.part ≠ number) :
    Alike (Agrees p number) (m.perform s line op).1 (m.perform t line op).1 := by
  cases op with
  | effect e => exact h.act fun _ u v huv ↦ .going huv.done
  | next label entry =>
    simp only [Machine.perform, h.site]
    exact h.next line label _
  | nextLinked label =>
    simp only [Machine.perform, h.site]
    split
    · exact h.call line label _
    · exact h.fault line _
  | lost n => exact h.fault line _
  | resume e =>
    refine h.act fun v u w huw ↦ ?_
    split
    · exact .going huw.done
    · exact huw.resume line _
  | forget e => exact h.act fun v u w huw ↦ huw.forget _
  | abstain slots => exact .going (h.setSwitches_library (hop slots (.inl rfl)) slots true).done
  | reinstate slots => exact .going (h.setSwitches_library (hop slots (.inr rfl)) slots false).done
  | unresolved n => exact h.fault line _
  | giveUp => exact h.giveUp
  | comeFrom => exact .going h.done
  | splat text => exact h.fault line _

end Agrees

section Unlimited

variable {m : Machine} {s : State}

theorem draw_unlimited (hm : m.maxDraws = none) (percent : Nat) (s : State) :
    m.draw percent s = some ((s.store.chance percent).1,
      { s with store := (s.store.chance percent).2, draws := s.draws + 1 }) := by
  simp only [draw, hm, Option.all_none, if_true]

theorem leaveStatement_unlimited (hm : m.maxDraws = none) :
    (m.leaveStatement s).1 =
      match (m.instruction? s).bind (·.trapdoor) with
      | none => .going { s.goTo (s.site.index + 1) with leaving := false }
      | some t =>
        if s.switch.blocks t.slot then .going { s.goTo (s.site.index + 1) with leaving := false }
        else match s.store.chance t.percent with
          | (false, store) =>
            .going { { s with store, draws := s.draws + 1 }.goTo (s.site.index + 1) with leaving := false }
          | (true, store) => .going ({ s with store, draws := s.draws + 1 }.goTo t.comeFrom) := by
  unfold leaveStatement
  cases (m.instruction? s).bind (·.trapdoor) with
  | none => rfl
  | some t =>
    dsimp only
    split
    · rfl
    · rw [draw_unlimited hm]
      rcases s.store.chance t.percent with ⟨_ | _, store⟩ <;> rfl

end Unlimited

end Machine

namespace Script

open Machine

variable {script : Script} {p : Program} {setting : Setting} {c : Chunk} {s t : State}

structure Fits (script : Script) (setting : Setting) (p : Program) : Prop where
  sound : p.Sound
  statements : p.statements = script.statements
  name : setting.name = script.name
  linked : setting.linked = script.linkage.labels

end Script

end Intercal
