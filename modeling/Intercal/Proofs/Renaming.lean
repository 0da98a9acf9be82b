import Intercal.Proofs.Acceptance
import Intercal.Proofs.Projects
import Mathlib.Logic.Equiv.Basic

namespace Intercal

theorem lookup_map_injective {α β γ : Type} [DecidableEq α] [DecidableEq β] {f : α → β} (hf : Function.Injective f)
    (entries : List (α × γ)) (a : α) : (entries.map (Prod.map f id)).lookup (f a) = entries.lookup a := by
  induction entries with
  | nil => rfl
  | cons e entries ih =>
    obtain ⟨b, c⟩ := e
    by_cases hab : a = b
    · simp [hab]
    · have hne : f a ≠ f b := fun heq ↦ hab (hf heq)
      simp [List.lookup_cons, beq_eq_false_iff_ne.mpr hab, beq_eq_false_iff_ne.mpr hne, ih]

variable (r : Equiv.Perm Label)

/-- The other name of a label as it is written. Numbers that are no labels have no other name. -/
def Label.renameRaw (n : Nat) : Nat := ((Label.ofNat? n).map fun l ↦ (r l).value).getD n

def Abstention.rename : Abstention → Abstention
  | .label n => .label (Label.renameRaw r n)
  | .gerunds gs => .gerunds gs

def Body.rename : Body → Body
  | .next n => .next (Label.renameRaw r n)
  | .comeFrom n => .comeFrom (Label.renameRaw r n)
  | .abstain t => .abstain (t.rename r)
  | .reinstate t => .reinstate (t.rename r)
  | b => b

/-- The statement with other names for its label and for those that it speaks of, and with the text that it has. -/
def Statement.rename (s : Statement) : Statement :=
  { s with
    header := { s.header with label := s.header.label.map (Label.renameRaw r) }
    body := s.body.rename r }

def Rejection.rename : Rejection → Rejection
  | .labelOutOfRange s n => .labelOutOfRange (s.rename r) (Label.renameRaw r n)
  | .labelRepeated s n first => .labelRepeated (s.rename r) (Label.renameRaw r n) first
  | .rude percent => .rude percent
  | .obsequious percent => .obsequious percent
  | .noTarget s n => .noTarget (s.rename r) (Label.renameRaw r n)
  | .targetTaken s n first => .targetTaken (s.rename r) (Label.renameRaw r n) first

def Program.rename (p : Program) : Program := { p with statements := p.statements.map (Statement.rename r) }

def Op.rename : Op → Op
  | .next l entry => .next (r l) entry
  | .nextLinked l => .nextLinked (r l)
  | .lost n => .lost (Label.renameRaw r n)
  | .unresolved n => .unresolved (Label.renameRaw r n)
  | op => op

def Instruction.rename (i : Instruction) : Instruction := { i with op := i.op.rename r, label := i.label.map r }

variable {r}

namespace Label

theorem ofNat?_renameRaw (n : Nat) : ofNat? (renameRaw r n) = (ofNat? n).map r := by
  unfold renameRaw
  cases h : ofNat? n with
  | none => exact h
  | some l => exact ofNat?_value (r l)

theorem renameRaw_value (l : Label) : renameRaw r l.value = (r l).value := by
  rw [renameRaw, ofNat?_value]
  rfl

theorem renameRaw_injective : Function.Injective (renameRaw r) := by
  intro m n h
  have hlabels : ofNat? m = ofNat? n := by
    have hrenamed := congrArg ofNat? h
    rw [ofNat?_renameRaw, ofNat?_renameRaw] at hrenamed
    exact Option.map_injective r.injective hrenamed
  cases hm : ofNat? m with
  | none =>
    rw [hm] at hlabels
    simpa [renameRaw, hm, ← hlabels] using h
  | some l =>
    rw [hm] at hlabels
    rw [← ofNat?_eq_some_iff.mp hm, ← ofNat?_eq_some_iff.mp hlabels.symm]

theorem beq_renameRaw (label? : Option Nat) (n : Nat) :
    (label?.map (renameRaw r) == some (renameRaw r n)) = (label? == some n) := by
  cases label? with
  | none => rfl
  | some m =>
    rw [Option.map_some, Bool.eq_iff_iff, beq_iff_eq, beq_iff_eq, Option.some_inj, Option.some_inj]
    exact renameRaw_injective.eq_iff

end Label

theorem Body.gerund?_rename (b : Body) : (b.rename r).gerund? = b.gerund? := by cases b <;> rfl

theorem positionOf?_rename (statements : List Statement) (n : Nat) :
    positionOf? (statements.map (Statement.rename r)) (Label.renameRaw r n) = positionOf? statements n := by
  rw [positionOf?, List.findIdx?_map, positionOf?]
  congr 1
  funext s
  exact Label.beq_renameRaw s.header.label n

theorem checkLabels_rename (seen : List (Nat × Nat)) (i : Nat) (statements : List Statement) :
    checkLabels (seen.map (Prod.map (Label.renameRaw r) id)) i (statements.map (Statement.rename r)) =
      (checkLabels seen i statements).mapError (Rejection.rename r) := by
  induction statements generalizing seen i with
  | nil => rfl
  | cons s rest ih =>
    have hlabel : (s.rename r).header.label = s.header.label.map (Label.renameRaw r) := rfl
    rw [List.map_cons, checkLabels, checkLabels, hlabel]
    cases s.header.label with
    | none => exact ih seen (i + 1)
    | some n =>
      simp only [Option.map_some, Label.ofNat?_renameRaw, Option.isNone_map,
        lookup_map_injective Label.renameRaw_injective]
      split
      · rfl
      · cases seen.lookup n with
        | some first => rfl
        | none => exact ih ((n, i) :: seen) (i + 1)

theorem checkManners_rename (statements : List Statement) :
    checkManners (statements.map (Statement.rename r)) = (checkManners statements).mapError (Rejection.rename r) := by
  have hpoliteness : politeness (statements.map (Statement.rename r)) = politeness statements := by
    rw [politeness, List.countP_map, List.length_map]
    rfl
  simp only [checkManners, hpoliteness, List.length_map]
  split
  · rfl
  · split
    · rfl
    · split <;> rfl

theorem claimTargets_rename (all : List Statement) (claims : List (Nat × Nat)) (i : Nat) (statements : List Statement) :
    claimTargets (all.map (Statement.rename r)) claims i (statements.map (Statement.rename r)) =
      (claimTargets all claims i statements).mapError (Rejection.rename r) := by
  induction statements generalizing claims i with
  | nil => rfl
  | cons s rest ih =>
    have hbody : (s.rename r).body = s.body.rename r := rfl
    rw [List.map_cons, claimTargets, claimTargets, hbody]
    cases s.body with
    | comeFrom n =>
      simp only [Body.rename, positionOf?_rename]
      cases positionOf? all n with
      | none => rfl
      | some target =>
        dsimp only
        cases claims.lookup target with
        | some first => rfl
        | none => exact ih ((target, i) :: claims) (i + 1)
    | _ => exact ih claims (i + 1)

theorem abstentions_rename (statements : List Statement) :
    abstentions (statements.map (Statement.rename r)) = (abstentions statements).map (Abstention.rename r) := by
  rw [abstentions, List.filterMap_map, abstentions, List.map_filterMap]
  congr 1
  funext s
  have hbody : (s.rename r).body = s.body.rename r := rfl
  simp only [Function.comp_apply, hbody]
  cases s.body <;> rfl

theorem Abstention.names_rename (t : Abstention) (s : Statement) : (t.rename r).names (s.rename r) = t.names s := by
  cases t with
  | label n => exact Label.beq_renameRaw s.header.label n
  | gerunds gs => exact congrArg (·.any gs.contains) s.body.gerund?_rename

theorem needsSlot_rename (ts : List Abstention) (s : Statement) :
    needsSlot (ts.map (Abstention.rename r)) (s.rename r) = needsSlot ts s := by
  have hnames : (fun t : Abstention ↦ (t.rename r).names (s.rename r)) = fun t ↦ t.names s := by
    funext t
    exact t.names_rename s
  rw [needsSlot, List.any_map, needsSlot]
  exact congrArg (fun f ↦ !s.header.enabled || ts.any f) hnames

theorem assignSlots_rename (ts : List Abstention) (next : Nat) (statements : List Statement) :
    assignSlots (ts.map (Abstention.rename r)) next (statements.map (Statement.rename r)) =
      assignSlots ts next statements := by
  induction statements generalizing next with
  | nil => rfl
  | cons s rest ih => simp only [List.map_cons, assignSlots, needsSlot_rename, ih]

namespace Program

/-- What is wrong with a program is wrong with the renamed one at the same statement, and nothing else is. -/
theorem analyze_rename (polite : Bool) (statements : List Statement) :
    analyze polite (statements.map (Statement.rename r)) =
      ((analyze polite statements).mapError (Rejection.rename r)).map (Program.rename r) := by
  have hlabels := checkLabels_rename (r := r) [] 0 statements
  simp only [analyze, List.map_nil] at hlabels ⊢
  rw [hlabels, claimTargets_rename, checkManners_rename, abstentions_rename, assignSlots_rename, List.length_map]
  cases checkLabels [] 0 statements with
  | error e => rfl
  | ok _ =>
    cases polite with
    | false => cases claimTargets statements [] 0 statements <;> rfl
    | true =>
      cases checkManners statements with
      | error e => rfl
      | ok _ => cases claimTargets statements [] 0 statements <;> rfl

end Program

namespace Chunk

variable {p : Program} {linked : List Label}

theorem slotsOf_rename (p : Program) (t : Abstention) :
    slotsOf (p.rename r) (t.rename r) = (slotsOf p t).mapError (Label.renameRaw r) := by
  cases t with
  | label n =>
    simp only [Abstention.rename, slotsOf, Program.position?, Program.rename, positionOf?_rename]
    cases positionOf? p.statements n <;> rfl
  | gerunds gs =>
    have hmembers (g : Gerund) : (p.rename r).members g = p.members g := by
      rw [Program.members, Program.rename, List.zipIdx_map, List.filterMap_map, Program.members]
      congr 1
      funext x
      exact congrArg (fun g? ↦ if g? = some g then some x.2 else none) x.1.body.gerund?_rename
    simp only [Abstention.rename, slotsOf, funext hmembers]
    rfl

theorem lowerNext_rename (hlinked : ∀ l, linked.contains (r l) = linked.contains l) (n : Nat) :
    lowerNext (p.rename r) linked (Label.renameRaw r n) = (lowerNext p linked n).rename r := by
  simp only [lowerNext, Label.ofNat?_renameRaw, Program.position?, Program.rename, positionOf?_rename]
  cases Label.ofNat? n with
  | none => rfl
  | some l =>
    dsimp only [Option.map_some]
    cases positionOf? p.statements n with
    | some entry => rfl
    | none =>
      simp only [hlinked]
      split <;> rfl

theorem lowerOp_rename (hlinked : ∀ l, linked.contains (r l) = linked.contains l) (s : Statement) :
    lowerOp (p.rename r) linked (s.rename r) = (lowerOp p linked s).rename r := by
  have hbody : (s.rename r).body = s.body.rename r := rfl
  unfold lowerOp
  rw [hbody]
  cases s.body with
  | next n => exact lowerNext_rename hlinked n
  | abstain t =>
    simp only [Body.rename, slotsOf_rename]
    cases slotsOf p t <;> rfl
  | reinstate t =>
    simp only [Body.rename, slotsOf_rename]
    cases slotsOf p t <;> rfl
  | _ => rfl

theorem guardOf_rename (i : Nat) (s : Statement) : guardOf (p.rename r) i (s.rename r) = guardOf p i s := by
  have hbody : (s.rename r).body = s.body.rename r := rfl
  unfold guardOf
  rw [hbody]
  cases s.body <;> rfl

theorem trapdoorOf_rename (i : Nat) : trapdoorOf (p.rename r) i = trapdoorOf p i := by
  simp only [trapdoorOf, Program.rename, List.getElem?_map]
  cases p.trapdoors.getD i none with
  | none => rfl
  | some origin =>
    cases horigin : p.statements[origin]? with
    | none => simp [horigin]
    | some s =>
      simp only [horigin, Option.bind_eq_bind, Option.bind_some, Option.map_some]
      rfl

theorem compiled_rename {setting : Setting} (hlinked : ∀ l, setting.linked.contains (r l) = setting.linked.contains l)
    (s : Statement) (i : Nat) : compiled setting (p.rename r) (s.rename r) i = (compiled setting p s i).rename r := by
  have hlabel : (s.rename r).header.label.bind Label.ofNat? = (s.header.label.bind Label.ofNat?).map r := by
    have hheader : (s.rename r).header.label = s.header.label.map (Label.renameRaw r) := rfl
    rw [hheader]
    cases s.header.label with
    | none => rfl
    | some n => exact Label.ofNat?_renameRaw n
  have hlower : lowerStatement (p.rename r) setting.linked (s.rename r) i =
      (lowerStatement p setting.linked s i).rename r := by
    simp only [lowerStatement, Instruction.rename, lowerOp_rename hlinked, guardOf_rename, trapdoorOf_rename, hlabel]
    rfl
  have hfold (x : Instruction) : (x.rename r).fold.result = x.fold.result.rename r := by
    obtain ⟨op, guard, trapdoor, label, line⟩ := x
    cases op <;> rfl
  unfold compiled
  rw [hlower, hfold]
  split <;> rfl

structure Renamed (r : Equiv.Perm Label) (c c' : Chunk) : Prop where
  name : c'.name = c.name
  instructions : c'.instructions = c.instructions.map (Instruction.rename r)
  defaults : c'.defaults = c.defaults

variable {setting : Setting} {statements : List Statement}

theorem compile_rename_error {e : Rejection} (h : compile setting statements = .error e) :
    compile setting (statements.map (Statement.rename r)) = .error (e.rename r) := by
  have hanalyze : Program.analyze setting.polite statements = .error e := by
    cases hp : Program.analyze setting.polite statements with
    | error e' =>
      rw [compile, hp] at h
      cases h
      rfl
    | ok p =>
      obtain ⟨result, hresult⟩ := compile_of_analyze hp
      cases h.symm.trans hresult
  rw [compile, Program.analyze_rename, hanalyze]
  rfl

theorem compile_rename_ok (hlinked : ∀ l, setting.linked.contains (r l) = setting.linked.contains l) {c : Chunk}
    {log : List Event} (h : compile setting statements = .ok (c, log)) :
    ∃ c' log', compile setting (statements.map (Statement.rename r)) = .ok (c', log') ∧ Renamed r c c' := by
  obtain ⟨p, hanalyze, rfl⟩ := compile_eq_ok h
  have hrenamed : Program.analyze setting.polite (statements.map (Statement.rename r)) = .ok (p.rename r) := by
    rw [Program.analyze_rename, hanalyze]
    rfl
  obtain ⟨⟨c', log'⟩, hcompile⟩ := compile_of_analyze hrenamed
  obtain ⟨p', hp', rfl⟩ := compile_eq_ok hcompile
  cases hrenamed.symm.trans hp'
  refine ⟨_, log', hcompile, rfl, ?_, ?_⟩
  · simp only [Program.rename, List.zipIdx_map, List.map_map, List.map_toArray]
    congr 2
    funext x
    exact compiled_rename hlinked x.1 x.2
  · simp only [lower, Program.rename, List.zip_map_left, List.filterMap_map]
    rfl

end Chunk

/-- A rejected program is rejected at the same place when it is renamed. -/
theorem Rejection.place_rename (e : Rejection) : (e.rename r).diagnostic.code = e.diagnostic.code ∧
    (e.rename r).diagnostic.location = e.diagnostic.location := by
  cases e <;> exact ⟨rfl, rfl⟩

def Diagnostic.Renamed (r : Equiv.Perm Label) (d d' : Diagnostic) : Prop :=
  ∃ message, d' = { d with message, trace := d.trace.map (Label.renameRaw r) }

/-- The faults are reported in the same way, but for the message. -/
structure Fault.Similar (f f' : Fault) : Prop where
  code : f'.code = f.code
  phase : f'.phase = f.phase
  note? : f'.note? = f.note?
  isLocated : f'.isLocated = f.isLocated

theorem Fault.Similar.refl (f : Fault) : f.Similar f := ⟨rfl, rfl, rfl, rfl⟩

namespace Machine

variable {m m' : Machine} {s : State} {line : Nat}

def State.rename (r : Equiv.Perm Label) (s : State) : State :=
  { s with frames := s.frames.map fun f ↦ { f with label := r f.label } }

inductive Ending.Renamed (r : Equiv.Perm Label) : Ending → Ending → Prop
  | gaveUp : Renamed r .gaveUp .gaveUp
  | failed {d d' : Diagnostic} : d.Renamed r d' → Renamed r (.failed d) (.failed d')
  | returned : Renamed r .returned .returned

inductive Turn.Renamed (r : Equiv.Perm Label) : Turn → Turn → Prop
  | going (s : State) : Renamed r (.going s) (.going (s.rename r))
  | ended {e e' : Ending} (s : State) : e.Renamed r e' → Renamed r (.ended e s) (.ended e' (s.rename r))

/-- The second machine has the parts of the first under other names, and what they are linked with are routines of the
system library, which have no other name. -/
structure Renamed (r : Equiv.Perm Label) (m m' : Machine) : Prop where
  maxDepth : m'.maxDepth = m.maxDepth
  maxDraws : m'.maxDraws = m.maxDraws
  chunk (number : Nat) : (m.part number).chunk.Renamed r (m'.part number).chunk
  linkage (number : Nat) : (m'.part number).linkage = (m.part number).linkage
  system {number : Nat} {l : Label} {c : Component} : (m.part number).linkage.owner? l = some c → c.body = .system
  fixed {number : Nat} {l : Label} {c : Component} : (m.part number).linkage.owner? l = some c → r l = l

theorem fail_renamed {d d' : Diagnostic} (htrace : d.trace = []) (hd : ∃ message, d' = { d with message }) :
    Turn.Renamed r (s.fail d).1 ((s.rename r).fail d').1 := by
  obtain ⟨message, rfl⟩ := hd
  have htraced : (Nexting.labels (s.rename r).frames).map (·.value) =
      ((Nexting.labels s.frames).map (·.value)).map (Label.renameRaw r) := by
    simp only [Nexting.labels, State.rename, List.map_map]
    congr 1
    funext f
    exact (Label.renameRaw_value f.label).symm
  refine .ended { s with frames := [] } (.failed ⟨message, ?_⟩)
  simp only [Diagnostic.orTraced, htrace, List.isEmpty_nil, if_true, htraced]

namespace Renamed

theorem report (h : Renamed r m m') {f f' : Fault} (hf : f.Similar f') :
    (m.report s line f).trace = [] ∧
      ∃ message, m'.report (s.rename r) line f' = { m.report s line f with message } := by
  have hname : (m'.chunk (s.rename r)).name = (m.chunk s).name := (h.chunk s.site.part).name
  unfold Machine.report
  rw [hname, hf.isLocated]
  unfold Fault.diagnostic
  rw [hf.code, hf.phase, hf.note?]
  split <;> exact ⟨rfl, _, rfl⟩

theorem fault (h : Renamed r m m') {f f' : Fault} (hf : f.Similar f') :
    Turn.Renamed r (s.fail (m.report s line f)).1 ((s.rename r).fail (m'.report (s.rename r) line f')).1 := by
  obtain ⟨htrace, hmessage⟩ := h.report hf
  exact fail_renamed htrace hmessage

theorem act (h : Renamed r m m') {α : Type} (a : Action α) {k k' : α → State → Step}
    (hk : ∀ x t, Turn.Renamed r (k x t).1 (k' x (State.rename r t)).1) :
    Turn.Renamed r (m.act s line a k).1 (m'.act (s.rename r) line a k').1 := by
  have hstore : (s.rename r).store = s.store := rfl
  simp only [Machine.act, hstore]
  rcases s.store.run a with ⟨f | x, store⟩
  · have hfault : Turn.Renamed r ({ s with store }.fail (m.report { s with store } line f)).1
        ((State.rename r { s with store }).fail (m'.report (State.rename r { s with store }) line f)).1 :=
      h.fault (.refl f)
    exact hfault
  · exact hk x { s with store }

theorem next (h : Renamed r m m') (label : Label) (target : Site) :
    Turn.Renamed r (m.next s line label target).1 (m'.next (s.rename r) line (r label) target).1 := by
  have hlength : (s.rename r).frames.length = s.frames.length := List.length_map _
  simp only [Machine.next, Nexting.next, hlength, h.maxDepth]
  by_cases hroom : s.frames.length < m.maxDepth
  · simp only [hroom, if_true]
    exact .going { s with site := target, frames := ⟨label, .site s.site⟩ :: s.frames }
  · simp only [hroom, if_false]
    exact h.fault (.refl _)

theorem resume (h : Renamed r m m') (depth : Nat) :
    Turn.Renamed r (m.resume s line depth).1 (m'.resume (s.rename r) line depth).1 := by
  have hdrop : (s.rename r).frames.drop (depth - 1) =
      (s.frames.drop (depth - 1)).map fun f ↦ { f with label := r f.label } := List.map_drop.symm
  have hlength : (s.rename r).frames.length = s.frames.length := List.length_map _
  simp only [Machine.resume, Nexting.resume, hdrop, hlength]
  cases s.frames.drop (depth - 1) with
  | nil => exact h.fault (.refl _)
  | cons frame frames =>
    obtain ⟨label, waiter⟩ := frame
    cases waiter with
    | site site => exact .going { s with site, frames, leaving := true }
    | host => exact .ended { s with frames } .returned

/-- Whatever a label is called, it is linked under all of its names or under none. -/
theorem owner? (h : Renamed r m m') (number : Nat) (l : Label) :
    (m'.part number).linkage.owner? (r l) = (m.part number).linkage.owner? l := by
  rw [h.linkage]
  cases hl : (m.part number).linkage.owner? l with
  | some c => rw [h.fixed hl, hl]
  | none =>
    cases hrl : (m.part number).linkage.owner? (r l) with
    | none => rfl
    | some c =>
      rw [r.injective (h.fixed hrl), hl] at hrl
      cases hrl

theorem perform (h : Renamed r m m') (op : Op) :
    Turn.Renamed r (m.perform s line op).1 (m'.perform (s.rename r) line (op.rename r)).1 := by
  cases op with
  | effect e => exact h.act e.perform fun _ t ↦ .going t.done
  | next label entry => exact h.next label _
  | nextLinked label =>
    have howner : (m'.part (s.rename r).site.part).linkage.owner? (r label) =
        (m.part s.site.part).linkage.owner? label := h.owner? s.site.part label
    simp only [Op.rename, Machine.perform, howner]
    cases hlabel : (m.part s.site.part).linkage.owner? label with
    | none => exact h.fault ⟨rfl, rfl, rfl, rfl⟩
    | some c =>
      simp only [Machine.call, h.system hlabel, h.fixed hlabel]
      exact h.act (SystemLibrary.call label.value) fun _ t ↦ .going t.done
  | lost n => exact h.fault ⟨rfl, rfl, rfl, rfl⟩
  | unresolved n => exact h.fault ⟨rfl, rfl, rfl, rfl⟩
  | resume e =>
    refine h.act e.value fun v t ↦ ?_
    split
    · exact .going t.done
    · exact h.resume _
  | forget e =>
    refine h.act e.value fun v t ↦ ?_
    have hdrop : Nexting.forget v.bits.toNat (State.rename r t).frames =
        (Nexting.forget v.bits.toNat t.frames).map fun f ↦ { f with label := r f.label } := List.map_drop.symm
    simp only [State.forget, hdrop]
    exact .going { t with frames := Nexting.forget v.bits.toNat t.frames, leaving := true }
  | abstain slots => exact .going (s.setSwitches slots true).done
  | reinstate slots => exact .going (s.setSwitches slots false).done
  | giveUp => exact .ended { s with frames := [] } .gaveUp
  | comeFrom => exact .going s.done
  | splat text => exact h.fault (.refl _)

theorem instruction? (h : Renamed r m m') (s : State) :
    m'.instruction? (s.rename r) = (m.instruction? s).map (Instruction.rename r) := by
  have hinstructions := (h.chunk s.site.part).instructions
  have hchunk : (m'.chunk (s.rename r)).instructions = (m.chunk s).instructions.map (Instruction.rename r) :=
    hinstructions
  rw [Machine.instruction?, hchunk, Array.getElem?_map]
  rfl

theorem draw (h : Renamed r m m') (percent : Nat) :
    m'.draw percent (s.rename r) = (m.draw percent s).map fun x ↦ (x.1, x.2.rename r) := by
  have hdraws : (s.rename r).draws = s.draws := rfl
  simp only [Machine.draw, h.maxDraws, hdraws]
  split <;> rfl

theorem enterStatement (h : Renamed r m m') :
    Turn.Renamed r (m.enterStatement s).1 (m'.enterStatement (s.rename r)).1 := by
  have hinstruction := h.instruction? s
  cases hi : m.instruction? s with
  | none =>
    rw [hi] at hinstruction
    have hname : (m'.chunk (s.rename r)).name = (m.chunk s).name := (h.chunk s.site.part).name
    rw [enterStatement_none hi, enterStatement_none hinstruction, hname]
    exact fail_renamed rfl ⟨_, rfl⟩
  | some i =>
    rw [hi] at hinstruction
    have hswitch : (s.rename r).switch = s.switch := rfl
    have hguard : (i.rename r).guard = i.guard := rfl
    rw [enterStatement_some hi, enterStatement_some hinstruction, hswitch, hguard, h.draw]
    split
    · exact .going s.done
    · rcases m.draw i.guard.percent s with _ | ⟨_ | _, t⟩
      · exact fail_renamed rfl ⟨_, rfl⟩
      · exact .going t.done
      · exact h.perform i.op

theorem leaveStatement (h : Renamed r m m') :
    Turn.Renamed r (m.leaveStatement s).1 (m'.leaveStatement (s.rename r)).1 := by
  have htrapdoor : (m'.instruction? (s.rename r)).bind (·.trapdoor) = (m.instruction? s).bind (·.trapdoor) := by
    rw [h.instruction?]
    cases m.instruction? s <;> rfl
  have hswitch : (s.rename r).switch = s.switch := rfl
  simp only [Machine.leaveStatement, htrapdoor, hswitch, h.draw]
  cases (m.instruction? s).bind (·.trapdoor) with
  | none => exact .going { s.goTo (s.site.index + 1) with leaving := false }
  | some door =>
    dsimp only
    split
    · exact .going { s.goTo (s.site.index + 1) with leaving := false }
    · rcases m.draw door.percent s with _ | ⟨_ | _, t⟩
      · exact fail_renamed rfl ⟨_, rfl⟩
      · exact .going { t.goTo (t.site.index + 1) with leaving := false }
      · exact .going (t.goTo door.comeFrom)

theorem turn (h : Renamed r m m') (s : State) : Turn.Renamed r (m.turn s) (m'.turn (s.rename r)) := by
  have hleaving : (s.rename r).leaving = s.leaving := rfl
  simp only [Machine.turn, step, hleaving]
  split
  · exact h.leaveStatement
  · exact h.enterStatement

theorem advance (h : Renamed r m m') (n : Nat) (s : State) :
    Turn.Renamed r (advance m.turn n s) (advance m'.turn n (s.rename r)) := by
  induction n generalizing s with
  | zero => exact .going s
  | succ n ih =>
    have hturn := h.turn s
    simp only [Machine.advance]
    generalize m.turn s = x at hturn ⊢
    generalize m'.turn (s.rename r) = y at hturn ⊢
    cases hturn with
    | going t => exact ih t
    | ended t he => exact .ended t he

end Renamed

end Machine

namespace Project

variable {options : Options} {l : Label}

theorem owner?_visible_ofOptions {c : Component} (h : (ofOptions options).visible.1.owner? l = some c) :
    c = .system ∧ l.value ∈ SystemLibrary.routines := by
  have hnone : (ofOptions options).linkage.owner? l = none := rfl
  unfold visible at h
  split at h
  · rw [Linkage.owner?_link, hnone, Option.none_or] at h
    split at h <;> cases h
    next hl => exact ⟨rfl, Component.mem_system_exports.mp hl⟩
  · cases h

theorem contains_visible_rename (hr : ∀ l : Label, l.value ∈ SystemLibrary.routines → r l = l) (l : Label) :
    (ofOptions options).visible.1.labels.contains (r l) = (ofOptions options).visible.1.labels.contains l := by
  have hfixed (l : Label) (hl : l ∈ (ofOptions options).visible.1.labels) : r l = l := by
    obtain ⟨c, hc⟩ := Option.isSome_iff_exists.mp (Linkage.mem_labels_iff.mp hl)
    exact hr l (owner?_visible_ofOptions hc).2
  rw [Bool.eq_iff_iff, List.contains_iff_mem, List.contains_iff_mem]
  constructor
  · intro hl
    rwa [r.injective (hfixed (r l) hl)] at hl
  · intro hl
    rwa [hfixed l hl]

theorem machine_renamed (hr : ∀ l : Label, l.value ∈ SystemLibrary.routines → r l = l) {c c' : Chunk}
    (hc : c.Renamed r c') (maxDraws : Option Nat) :
    ((ofOptions options).machine c maxDraws).Renamed r ((ofOptions options).machine c' maxDraws) := by
  have hpart (c : Chunk) (number : Nat) : ((ofOptions options).machine c maxDraws).part number =
      if number = 0 then ⟨c, (ofOptions options).visible.1⟩ else default := by
    rw [Machine.part, machine, Array.getD_eq_getD_getElem?, Array.getElem?_push]
    cases number <;> rfl
  have howner {number : Nat} {l : Label} {x : Component}
      (h : (((ofOptions options).machine c maxDraws).part number).linkage.owner? l = some x) :
      x = .system ∧ l.value ∈ SystemLibrary.routines := by
    rw [hpart] at h
    split at h
    · exact owner?_visible_ofOptions h
    · cases h
  refine ⟨rfl, rfl, fun number ↦ ?_, fun number ↦ ?_, fun h ↦ ?_, fun h ↦ hr _ (howner h).2⟩
  · rw [hpart, hpart]
    split
    · exact hc
    · exact ⟨rfl, Array.map_empty.symm, rfl⟩
  · rw [hpart, hpart]
    split <;> rfl
  · rw [(howner h).1]
    rfl

/-- It does not matter what labels are called, as long as the routines of the system library keep their names. A
program under other names is refused if and only if the program is, with the same code at the same place. Otherwise the
two run side by side with no library but that of the system: they stand at the same places with the same store at every
step, and end in the same way, with the same code at the same place if they fail and other names in the trace. -/
theorem label_names_do_not_matter (hr : ∀ l : Label, l.value ∈ SystemLibrary.routines → r l = l) (options : Options)
    {setting : Setting} (hlinked : setting.linked = (ofOptions options).visible.1.labels)
    (statements : List Statement) :
    (∀ e, Chunk.compile setting statements = .error e →
      ∃ e', Chunk.compile setting (statements.map (Statement.rename r)) = .error e' ∧
        e'.diagnostic.code = e.diagnostic.code ∧ e'.diagnostic.location = e.diagnostic.location) ∧
    ∀ c log, Chunk.compile setting statements = .ok (c, log) →
      ∃ c' log', Chunk.compile setting (statements.map (Statement.rename r)) = .ok (c', log') ∧
        ∀ maxDraws store events events' n,
          Machine.Turn.Renamed r
            (((ofOptions options).machine c maxDraws).run events n ((ofOptions options).start c store)).1
            (((ofOptions options).machine c' maxDraws).run events' n ((ofOptions options).start c' store)).1 := by
  refine ⟨fun e he ↦ ⟨_, Chunk.compile_rename_error he, e.place_rename⟩, fun c log hc ↦ ?_⟩
  have hcontains (l : Label) : setting.linked.contains (r l) = setting.linked.contains l := by
    rw [hlinked]
    exact contains_visible_rename hr l
  obtain ⟨c', log', hcompile, hrenamed⟩ := Chunk.compile_rename_ok hcontains hc
  refine ⟨c', log', hcompile, fun maxDraws store events events' n ↦ ?_⟩
  have hstart : (ofOptions options).start c' store = ((ofOptions options).start c store).rename r := by
    rw [start, hrenamed.defaults]
    rfl
  rw [Machine.run_fst, Machine.run_fst, hstart]
  exact (machine_renamed hr hrenamed maxDraws).advance n _

def hiccup : List Statement :=
  [⟨0, ⟨1, 1, 0⟩, { label := some 10 }, .next 20, "(10) DO (20) NEXT"⟩,
    ⟨1, ⟨2, 1, 18⟩, { label := some 20 }, .resume (.constant 5 false), "(20) DO RESUME #5"⟩,
    ⟨2, ⟨3, 1, 36⟩, { label := some 1000 }, .comeFrom 10, "(1000) DO COME FROM (10)"⟩]

theorem label_names_do_not_matter_hiccup :
    ∃ c log c' log' d t d' t',
      Chunk.compile ⟨"hiccup", (ofOptions {}).visible.1.labels, false, true, none⟩ hiccup = .ok (c, log) ∧
      Chunk.compile ⟨"hiccup", (ofOptions {}).visible.1.labels, false, true, none⟩
        (hiccup.map (Statement.rename (Equiv.swap ⟨10, by decide, by decide⟩ ⟨20, by decide, by decide⟩))) =
          .ok (c', log') ∧
      (((ofOptions {}).machine c none).run #[] 2 ((ofOptions {}).start c {})).1 = .ended (.failed d) t ∧
      (((ofOptions {}).machine c' none).run #[] 2 ((ofOptions {}).start c' {})).1 = .ended (.failed d') t' ∧
      d.code = .e632 ∧ d'.code = .e632 ∧ d.trace = [20] ∧ d'.trace = [10] ∧ t'.site = t.site := by
  have hroutines (l : Label) (hl : l.value ∈ SystemLibrary.routines) :
      Equiv.swap ⟨10, by decide, by decide⟩ ⟨20, by decide, by decide⟩ l = l := by
    apply Equiv.swap_apply_of_ne_of_ne
    · rintro rfl
      exact absurd hl (by decide)
    · rintro rfl
      exact absurd hl (by decide)
  have hcompile : ∃ c log,
      Chunk.compile ⟨"hiccup", (ofOptions {}).visible.1.labels, false, true, none⟩ hiccup = .ok (c, log) ∧
      ∃ d t, (((ofOptions {}).machine c none).run #[] 2 ((ofOptions {}).start c {})).1 = .ended (.failed d) t ∧
        d.code = .e632 ∧ d.trace = [20] := by
    generalize (ofOptions {}).visible.1.labels = linked
    exact ⟨_, _, rfl, _, _, rfl, rfl, rfl⟩
  obtain ⟨c, log, hc, d, t, hrun, hcode, htrace⟩ := hcompile
  obtain ⟨-, hok⟩ := @label_names_do_not_matter _ hroutines {}
    ⟨"hiccup", (ofOptions {}).visible.1.labels, false, true, none⟩ rfl hiccup
  obtain ⟨c', log', hc', hruns⟩ := hok c log hc
  have hrenamed := hruns none {} #[] #[] 2
  rw [hrun] at hrenamed
  generalize hrun' : (((ofOptions {}).machine c' none).run #[] 2 ((ofOptions {}).start c' {})).1 = turn at hrenamed
  cases hrenamed with
  | ended _ hending =>
    cases hending with
    | failed hd =>
      obtain ⟨message, rfl⟩ := hd
      refine ⟨c, log, c', log', d, t, _, _, hc, hc', hrun, hrun', hcode, hcode, htrace, ?_, rfl⟩
      rw [htrace]
      rfl

end Project

end Intercal
