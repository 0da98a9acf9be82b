import Intercal.Machine

namespace Intercal.Machine

def turn (m : Machine) (s : State) : Turn := (m.step s).1

theorem enterStatement_none {m : Machine} {s : State} (h : m.instruction? s = none) :
    (m.enterStatement s).1 = (s.fail (Fault.fellOff s.site.index (m.chunk s).name).diagnostic).1 := by
  simp only [enterStatement, h]

theorem enterStatement_some {m : Machine} {s : State} {i : Instruction} (h : m.instruction? s = some i) :
    (m.enterStatement s).1 =
      if s.switch.blocks i.guard.slot then .going s.done
      else match m.draw i.guard.percent s with
        | none => (s.fail Fault.crash.diagnostic).1
        | some (false, t) => .going t.done
        | some (true, t) => (m.perform t i.line i.op).1 := by
  simp only [enterStatement, h]
  split
  · rfl
  · rcases m.draw i.guard.percent s with _ | ⟨_ | _, t⟩ <;> rfl

def advance (next : State → Turn) : Nat → State → Turn
  | 0, s => .going s
  | n + 1, s =>
    match next s with
    | .going t => advance next n t
    | .ended e t => .ended e t

theorem run_fst (m : Machine) (events : Array Event) (n : Nat) (s : State) :
    (m.run events n s).1 = advance m.turn n s := by
  induction n generalizing events s with
  | zero => rfl
  | succ n ih =>
    simp only [run, advance, turn]
    rcases m.step s with ⟨t | ⟨e, t⟩, new⟩
    · exact ih (events ++ new) t
    · rfl

theorem advance_succ (next : State → Turn) (n : Nat) (s : State) :
    advance next (n + 1) s =
      match advance next n s with
      | .going t => next t
      | .ended e t => .ended e t := by
  induction n generalizing s with
  | zero =>
    simp only [advance]
    cases next s <;> rfl
  | succ n ih =>
    cases hs : next s with
    | going t =>
      have hn : ∀ k, advance next (k + 1) s = advance next k t := fun k ↦ by simp only [advance, hs]
      rw [hn, hn]
      exact ih t
    | ended e t => simp only [advance, hs]

/-- Both go on, or both end in the same way, with their states in the given relation. -/
inductive Alike (R : State → State → Prop) : Turn → Turn → Prop
  | going {s t : State} : R s t → Alike R (.going s) (.going t)
  | ended (e : Ending) {s t : State} : R s t → Alike R (.ended e s) (.ended e t)

structure Akin (m k : Machine) : Prop where
  maxDepth : m.maxDepth = k.maxDepth
  name (number : Nat) : (m.part number).chunk.name = (k.part number).chunk.name
  entry? (number : Nat) (l : Label) : (m.part number).chunk.entry? l = (k.part number).chunk.entry? l
  linkage (number : Nat) : (m.part number).linkage = (k.part number).linkage

namespace Akin

variable {m k : Machine}

theorem report_eq (h : Akin m k) (s : State) (line : Nat) (f : Fault) : m.report s line f = k.report s line f := by
  simp only [report, chunk, h.name]

theorem act_eq (h : Akin m k) {α : Type} (s : State) (line : Nat) (a : Action α) (f : α → State → Step) :
    m.act s line a f = k.act s line a f := by
  simp only [act, h.report_eq]

theorem next_eq (h : Akin m k) (s : State) (line : Nat) (label : Label) (target : Site) :
    m.next s line label target = k.next s line label target := by
  simp only [next, h.report_eq, h.maxDepth]

theorem resume_eq (h : Akin m k) (s : State) (line depth : Nat) : m.resume s line depth = k.resume s line depth := by
  simp only [resume, h.report_eq]

theorem call_eq (h : Akin m k) (s : State) (line : Nat) (label : Label) (c : Component) :
    m.call s line label c = k.call s line label c := by
  simp only [call, h.act_eq, h.entry?, h.next_eq, h.report_eq, chunk, h.name]

theorem perform_eq (h : Akin m k) (s : State) (line : Nat) (op : Op) :
    m.perform s line op = k.perform s line op := by
  cases op <;> simp only [perform, h.act_eq, h.next_eq, h.linkage, h.call_eq, h.report_eq, h.resume_eq]

end Akin

end Intercal.Machine
