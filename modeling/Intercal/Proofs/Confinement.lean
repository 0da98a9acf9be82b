import Intercal.Machine.Visit
import Intercal.Proofs.Closure
import Intercal.Proofs.Failures

namespace Intercal

namespace Machine

variable {m : Machine} {s t : State}

def Compiled (m : Machine) : Prop := ∀ part ∈ m.parts, part.chunk.Compiled

theorem Compiled.closed (h : m.Compiled) (number : Nat) : (m.part number).chunk.Closed := by
  unfold part
  rw [Array.getD_eq_getD_getElem?]
  cases hpart : m.parts[number]? with
  | none => exact Chunk.closed_empty ""
  | some part => exact (h part (Array.mem_of_getElem? hpart)).closed

structure Sized (m : Machine) (switches : Array Switches) : Prop where
  parts : switches.size = m.parts.size
  slots (number : Nat) : (switches.getD number ⟨#[]⟩).size = (m.part number).chunk.defaults.size

theorem Sized.modify {switches : Array Switches} (h : m.Sized switches) (number : Nat) (slots : List Nat) (b : Bool) :
    m.Sized (switches.modify number (·.setAll slots b)) where
  parts := by rw [Array.size_modify, h.parts]
  slots k := by
    rw [← h.slots k, Array.getD_eq_getD_getElem?, Array.getD_eq_getD_getElem?, Array.getElem?_modify]
    split
    · cases switches[k]? with
      | none => rfl
      | some switch => exact Switches.size_setAll ..
    · rfl

/-- A statement that is done, or that waits for a `NEXT`, is in its chunk. Control may also stand right behind one. -/
structure InRange (m : Machine) (s : State) : Prop where
  here : s.site.index ≤ (m.chunk s).size
  leaving : s.leaving → s.site.index < (m.chunk s).size
  waiting {frame : Frame Waiter} {site : Site} :
    frame ∈ s.frames → frame.waiter = .site site → site.index < (m.part site.part).chunk.size
  switches : m.Sized s.switches

def Turn.state : Turn → State
  | .going s | .ended _ s => s

namespace InRange

theorem start {number : Nat} {switches : Array Switches} (hsized : m.Sized switches) (store : Store) (draws : Nat) :
    m.InRange ⟨⟨number, 0⟩, false, [], switches, store, draws⟩ where
  here := Nat.zero_le _
  leaving hleaving := nomatch hleaving
  waiting hframe := absurd hframe List.not_mem_nil
  switches := hsized

theorem done (h : m.InRange s) (hhere : s.site.index < (m.chunk s).size) : m.InRange s.done :=
  ⟨h.here, fun _ ↦ hhere, h.waiting, h.switches⟩

theorem withStore (h : m.InRange s) (store : Store) : m.InRange { s with store } :=
  ⟨h.here, h.leaving, h.waiting, h.switches⟩

theorem draw (h : m.InRange s) {percent : Nat} {lucky : Bool} (hdraw : m.draw percent s = some (lucky, t)) :
    m.InRange t := by
  rw [draw_eq hdraw]
  exact ⟨h.here, h.leaving, h.waiting, h.switches⟩

theorem dropFrames (h : m.InRange s) {frames : List (Frame Waiter)} (hframes : frames ⊆ s.frames) :
    m.InRange { s with frames } :=
  ⟨h.here, h.leaving, fun hframe ↦ h.waiting (hframes hframe), h.switches⟩

theorem goTo (h : m.InRange s) {site : Site} (hsite : site.index < (m.part site.part).chunk.size) :
    m.InRange { s with site } :=
  ⟨Nat.le_of_lt hsite, fun _ ↦ hsite, h.waiting, h.switches⟩

theorem push (h : m.InRange s) {f : Frame Waiter}
    (hf : ∀ site, f.waiter = .site site → site.index < (m.part site.part).chunk.size) :
    m.InRange { s with frames := f :: s.frames } where
  here := h.here
  leaving := h.leaving
  waiting hmem hwaiter := by
    rcases List.mem_cons.mp hmem with rfl | hmem
    · exact hf _ hwaiter
    · exact h.waiting hmem hwaiter
  switches := h.switches

theorem fail (h : m.InRange s) (d : Diagnostic) : m.InRange (s.fail d).1.state :=
  h.dropFrames (List.nil_subset _)

theorem giveUp (h : m.InRange s) : m.InRange s.giveUp.1.state :=
  h.dropFrames (List.nil_subset _)

theorem forget (h : m.InRange s) (hhere : s.site.index < (m.chunk s).size) (depth : Nat) :
    m.InRange (s.forget depth).1.state :=
  (h.dropFrames (List.drop_subset depth s.frames)).done hhere

theorem act {α : Type} {a : Action α} {line : Nat} {k : α → State → Step} (h : m.InRange s)
    (hk : ∀ x store, m.InRange (k x { s with store }).1.state) : m.InRange (m.act s line a k).1.state := by
  unfold Machine.act
  split
  · exact hk _ _
  · exact (h.withStore _).fail _

theorem next (h : m.InRange s) (hhere : s.site.index < (m.chunk s).size) {target : Site}
    (htarget : target.index < (m.part target.part).chunk.size) (line : Nat) (label : Label) :
    m.InRange (m.next s line label target).1.state := by
  unfold Machine.next Nexting.next
  split
  · next frames hframes =>
    split at hframes <;> cases hframes
    refine (h.push (f := ⟨label, .site s.site⟩) fun site hsite ↦ ?_).goTo htarget
    cases hsite
    exact hhere
  · exact h.fail _

theorem resume (h : m.InRange s) (line depth : Nat) : m.InRange (m.resume s line depth).1.state := by
  unfold Machine.resume Nexting.resume
  split
  · next frame frames hresume =>
    split at hresume <;> cases hresume
    next hdrop =>
    have hsubset : frame :: frames ⊆ s.frames := by
      rw [← hdrop]
      exact List.drop_subset _ _
    have hframes : frames ⊆ s.frames := fun f hf ↦ hsubset (List.mem_cons_of_mem _ hf)
    dsimp only
    split
    · next site hsite =>
      have hback := h.waiting (hsubset List.mem_cons_self) hsite
      exact ((h.dropFrames hframes).goTo hback).done hback
    · exact h.dropFrames hframes
  · exact h.fail _

theorem call (hm : m.Compiled) (h : m.InRange s) (hhere : s.site.index < (m.chunk s).size) (line : Nat) (label : Label)
    (c : Component) : m.InRange (m.call s line label c).1.state := by
  unfold Machine.call
  cases c.body with
  | system => exact h.act fun _ store ↦ (h.withStore store).done hhere
  | library number =>
    dsimp only
    split
    · next index hentry =>
      obtain ⟨i, hi, -⟩ := (hm.closed number).entry hentry
      obtain ⟨hlt, -⟩ := Array.getElem?_eq_some_iff.mp hi
      exact h.next hhere hlt line label
    · exact h.fail _
  | host routines =>
    refine h.act fun reply store ↦ ?_
    cases reply with
    | resumed => exact (h.withStore store).done hhere
    | forgot depth => exact (h.withStore store).forget hhere depth
    | gaveUp => exact (h.withStore store).giveUp
    | failed d => exact (h.withStore store).fail _

theorem perform (hm : m.Compiled) (h : m.InRange s) {i : Instruction} (hi : m.instruction? s = some i) :
    m.InRange (m.perform s i.line i.op).1.state := by
  have hhere : s.site.index < (m.chunk s).size := (Array.getElem?_eq_some_iff.mp hi).1
  cases hop : i.op with
  | effect e => exact h.act fun _ store ↦ (h.withStore store).done hhere
  | next label entry =>
    obtain ⟨j, hj, -⟩ := (hm.closed s.site.part).next (Array.mem_of_getElem? hi) hop
    obtain ⟨hlt, -⟩ := Array.getElem?_eq_some_iff.mp hj
    exact h.next hhere hlt i.line label
  | nextLinked label =>
    simp only [Machine.perform]
    split
    · exact h.call hm hhere _ _ _
    · exact h.fail _
  | lost n => exact h.fail _
  | resume e =>
    refine h.act fun v store ↦ ?_
    split
    · exact (h.withStore store).done hhere
    · exact (h.withStore store).resume _ _
  | forget e => exact h.act fun v store ↦ (h.withStore store).forget hhere _
  | abstain slots => exact ⟨h.here, fun _ ↦ hhere, h.waiting, h.switches.modify _ _ _⟩
  | reinstate slots => exact ⟨h.here, fun _ ↦ hhere, h.waiting, h.switches.modify _ _ _⟩
  | unresolved n => exact h.fail _
  | giveUp => exact h.giveUp
  | comeFrom => exact h.done hhere
  | splat text => exact h.fail _

theorem follow (h : m.InRange s) (hleaving : s.leaving) :
    m.InRange { s.goTo (s.site.index + 1) with leaving := false } :=
  ⟨h.leaving hleaving, nofun, h.waiting, h.switches⟩

theorem turn (hm : m.Compiled) (h : m.InRange s) : m.InRange (m.turn s).state := by
  unfold Machine.turn step
  cases hleaving : s.leaving with
  | true =>
    simp only [if_true, leaveStatement]
    cases htrapdoor : (m.instruction? s).bind (·.trapdoor) with
    | none => exact h.follow hleaving
    | some trapdoor =>
      dsimp only
      split
      · exact h.follow hleaving
      · rcases hdraw : m.draw trapdoor.percent s with _ | ⟨_ | _, t⟩
        · exact h.fail _
        · exact (h.draw hdraw).follow (by rw [draw_eq hdraw]; exact hleaving)
        · obtain ⟨i, hi, ht⟩ := Option.bind_eq_some_iff.mp htrapdoor
          obtain ⟨j, hj, -⟩ := (hm.closed s.site.part).trapdoor (Array.mem_of_getElem? hi) ht
          obtain ⟨hlt, -⟩ := Array.getElem?_eq_some_iff.mp hj
          rw [draw_eq hdraw]
          exact ⟨Nat.le_of_lt hlt, fun _ ↦ hlt, h.waiting, h.switches⟩
  | false =>
    simp only [Bool.false_eq_true, if_false]
    cases hi : m.instruction? s with
    | none =>
      rw [enterStatement_none hi]
      exact h.fail _
    | some i =>
      have hhere : s.site.index < (m.chunk s).size := (Array.getElem?_eq_some_iff.mp hi).1
      rw [enterStatement_some hi]
      split
      · exact h.done hhere
      · rcases hdraw : m.draw i.guard.percent s with _ | ⟨_ | _, t⟩
        · exact h.fail _
        · exact (h.draw hdraw).done (by rw [draw_eq hdraw]; exact hhere)
        · exact (h.draw hdraw).perform hm (by rw [draw_eq hdraw]; exact hi)

theorem advance (hm : m.Compiled) (h : m.InRange s) (n : Nat) : m.InRange (advance m.turn n s).state := by
  induction n generalizing s with
  | zero => exact h
  | succ n ih =>
    have hturn := h.turn hm
    simp only [Machine.advance]
    split
    · next t ht =>
      rw [ht] at hturn
      exact ih hturn
    · next e t ht =>
      rw [ht] at hturn
      exact hturn

theorem enter (hm : m.Compiled) (h : m.InRange s) {number : Nat} {label : Label} {events : List Event}
    (henter : m.enter s number label = .ok (t, events)) : m.InRange t := by
  unfold Machine.enter at henter
  split at henter
  · cases henter
  · next index hentry =>
    obtain ⟨frames, hframes, henter⟩ := bind_eq_ok henter
    cases henter
    unfold Nexting.next at hframes
    split at hframes <;> cases hframes
    obtain ⟨i, hi, -⟩ := (hm.closed number).entry hentry
    obtain ⟨hlt, -⟩ := Array.getElem?_eq_some_iff.mp hi
    have hpushed := h.push (f := ⟨label, .host⟩) fun _ hsite ↦ nomatch hsite
    exact ⟨Nat.le_of_lt hlt, nofun, hpushed.waiting, h.switches⟩

end InRange

/-- The states that a host can bring about. It begins at the top of a part, or enters at a label wherever the machine
was left, and lets it run for a while, with or without a limit to the draws. -/
inductive Reachable (m : Machine) : State → Prop
  | start {switches : Array Switches} (number : Nat) (sized : m.Sized switches) (store : Store) (draws : Nat) :
      Reachable m ⟨⟨number, 0⟩, false, [], switches, store, draws⟩
  | enter {s t : State} {number : Nat} {label : Label} {events : List Event} (reached : Reachable m s)
      (entered : m.enter s number label = .ok (t, events)) : Reachable m t
  | run {s : State} (reached : Reachable m s) (maxDraws : Option Nat) (events : Array Event) (n : Nat) :
      Reachable m ({ m with maxDraws }.run events n s).1.state

theorem Reachable.inRange (hm : m.Compiled) (h : m.Reachable s) : m.InRange s := by
  induction h with
  | start number sized store draws => exact .start sized store draws
  | enter _ entered ih => exact ih.enter hm entered
  | @run s _ maxDraws events n ih =>
    rw [run_fst]
    have hlimited : { m with maxDraws }.InRange s :=
      ⟨ih.here, ih.leaving, ih.waiting, ih.switches.parts, ih.switches.slots⟩
    have hadvance := hlimited.advance (by exact hm) n
    exact ⟨hadvance.here, hadvance.leaving, hadvance.waiting, hadvance.switches.parts, hadvance.switches.slots⟩

def CallsHost (m : Machine) (s : State) : Prop :=
  ∃ t i label c routines, m.Performs s t i ∧ i.op = .nextLinked label ∧
    (m.part s.site.part).linkage.owner? label = some c ∧ c.body = .host routines

/-- Only the end of a chunk, or a routine of the host, is reported as running out of statements. -/
theorem fellOff_of_e633 {d : Diagnostic} (hturn : m.turn s = .ended (.failed d) t) (hcode : d.code = .e633) :
    s.leaving = false ∧ m.instruction? s = none ∨ m.CallsHost s := by
  obtain ⟨d', hfails, rfl⟩ := turn_fails m s d t hturn
  rw [code_orTraced] at hcode
  cases hfails with
  | fellOff entering here => exact .inl ⟨entering, here⟩
  | crash => cases hcode
  | @raised _ i f performs raises =>
    rw [code_report] at hcode
    generalize i.op = op at raises
    cases raises with
    | store h => exact absurd hcode (Fault.code_of_ofStore h).2
    | _ => cases hcode
  | host performs op owner body => exact .inr ⟨_, _, _, _, _, performs, op, owner, body⟩

theorem e633_of_fellOff (hleaving : s.leaving = false) (hhere : m.instruction? s = none) :
    ∃ d t, m.turn s = .ended (.failed d) t ∧ d.code = .e633 := by
  have hturn : m.turn s = (s.fail (Fault.fellOff s.site.index (m.chunk s).name).diagnostic).1 := by
    rw [turn, step, hleaving, if_neg Bool.false_ne_true, enterStatement_none hhere]
  exact ⟨_, _, hturn, code_orTraced _ _⟩

theorem InRange.slot_lt (hm : m.Compiled) (h : m.InRange s) {i : Instruction} (hi : m.instruction? s = some i)
    {slot : Nat} (hslot : slot ∈ i.slots) : slot < s.switch.size := by
  have hclosed := (hm.closed s.site.part).slots (Array.mem_of_getElem? hi) hslot
  rw [← h.switches.slots s.site.part] at hclosed
  exact hclosed

theorem InRange.instruction?_eq_none_iff (h : m.InRange s) :
    m.instruction? s = none ↔ s.site.index = (m.chunk s).size := by
  rw [instruction?, Array.getElem?_eq_none_iff]
  exact ⟨fun hsize ↦ Nat.le_antisymm h.here hsize, fun heq ↦ Nat.le_of_eq heq.symm⟩

end Machine

end Intercal
