import Intercal.Proofs.Projects
import Mathlib.Tactic.SplitIfs

namespace Intercal

namespace Store

variable {α β : Type} {s : Store} {r : Random.Source}

def reseed (s : Store) (r : Random.Source) : Store := { s with source := r }

/-- The action neither looks at the source of random numbers nor changes it. -/
def Blind (a : Action α) : Prop := ∀ s r, (reseed s r).run a = ((s.run a).1, (s.run a).2.reseed r)

@[simp] theorem scalars_reseed : (s.reseed r).scalars = s.scalars := rfl

@[simp] theorem arrays_reseed : (s.reseed r).arrays = s.arrays := rfl

@[simp] theorem input_reseed : (s.reseed r).input = s.input := rfl

theorem read_reseed (v : Variable) : (s.reseed r).read v = s.read v := rfl

theorem grid_reseed (v : Variable) : (s.reseed r).grid v = s.grid v := rfl

/-- At the two certainties nothing is drawn. -/
theorem chance_reseed {percent : Nat} (h : percent = 0 ∨ percent = 100) (s : Store) (r : Random.Source) :
    (s.reseed r).chance percent = ((s.chance percent).1, (s.chance percent).2.reseed r) := by
  rcases h with rfl | rfl <;> rfl

namespace Blind

theorem ask {f : Store → Except Fault α} (h : ∀ s r, f (reseed s r) = f s) : Blind (Request.ask f) := by
  intro s r
  exact congrArg (·, s.reseed r) (h s r)

theorem bind {a : Action α} {f : α → Action β} (ha : Blind a) (hf : ∀ x, Blind (f x)) : Blind (a >>= f) := by
  intro s r
  rw [run_bind, run_bind, ha s r]
  rcases s.run a with ⟨e | x, t⟩
  · rfl
  · exact hf x t r

theorem pure (x : α) : Blind (pure x) := fun _ _ ↦ rfl

theorem throw (f : Fault) : Blind (throw f : Action α) := fun _ _ ↦ rfl

theorem ofExcept (x : Except Fault α) : Blind (x : Action α) := by
  cases x with
  | ok x => exact .pure x
  | error f => exact .throw f

/-- To take the whole store is to take the source too, so what follows must not depend on it. -/
theorem get_bind {f : Store → Action α} (hf : ∀ s, Blind (f s)) (hsource : ∀ s r, f (reseed s r) = f s) :
    Blind (getThe Store >>= f) := by
  intro s r
  have hrun (t : Store) : t.run (getThe Store >>= f) = t.run (f t) := rfl
  rw [hrun, hrun, hsource]
  exact hf s s r

theorem forM {a : α → Action Unit} (ha : ∀ x, Blind (a x)) (xs : List α) : Blind (xs.forM a) := by
  induction xs with
  | nil => exact .pure _
  | cons x xs ih => exact (ha x).bind fun _ ↦ ih

theorem write (v : Variable) (x : Word) : Blind (write v x) := by
  intro s r
  cases hignored : (s.scalars.cell v).ignored <;>
    simp only [run, Store.write, scalars_reseed, hignored, if_true, Bool.false_eq_true, if_false] <;>
    split_ifs <;> rfl

theorem writeElement (v : Variable) (subscripts : List Nat) (x : Word) : Blind (writeElement v subscripts x) := by
  intro s r
  simp only [run, Store.writeElement, arrays_reseed]
  cases s.arrays.get? v with
  | none => rfl
  | some c =>
    cases hvalue : c.value with
    | none =>
      simp only [hvalue]
      split_ifs <;> rfl
    | some g =>
      cases hoffset : Grid.offset? g.dimensions subscripts <;> simp only [hvalue, hoffset] <;> split_ifs <;> rfl

theorem redimension (v : Variable) (dimensions : List Nat) : Blind (redimension v dimensions) := by
  intro s r
  cases hignored : (s.arrays.cell v).ignored <;>
    simp only [run, Store.redimension, arrays_reseed, hignored, if_true, Bool.false_eq_true, if_false] <;>
    split_ifs <;> rfl

theorem stash (v : Variable) : Blind (stash v) := by
  intro s r
  simp only [run, Store.stash]
  split <;> rfl

theorem retrieve (v : Variable) : Blind (retrieve v) := by
  intro s r
  simp only [run, Store.retrieve, scalars_reseed, arrays_reseed]
  split
  · cases s.arrays.retrieve? v <;> rfl
  · cases s.scalars.retrieve? v <;> rfl

theorem ignore (v : Variable) : Blind (ignore v) := by
  intro s r
  simp only [run, Store.ignore]
  split <;> rfl

theorem remember (v : Variable) : Blind (remember v) := by
  intro s r
  simp only [run, Store.remember]
  split <;> rfl

theorem readOut (x : Word) : Blind (readOut x) := fun _ _ ↦ rfl

theorem readOutArray (v : Variable) : Blind (readOutArray v) := by
  intro s r
  simp only [run, Store.readOutArray, grid_reseed]
  cases s.grid v <;> rfl

theorem readByte : Blind readByte := by
  intro s r
  simp only [run, Store.readByte, input_reseed]
  cases s.input <;> rfl

theorem readLine : Blind readLine := by
  intro s r
  simp only [run, Store.readLine, input_reseed]
  cases s.input <;> rfl

theorem fill (v : Variable) (i n : Nat) : Blind (fill v i n) := by
  induction n generalizing i with
  | zero => exact .pure _
  | succ n ih =>
    refine readByte.bind fun b ↦ get_bind (fun s ↦ ?_) fun _ _ ↦ rfl
    refine .bind (fun _ _ ↦ rfl) fun _ ↦ ?_
    exact (writeElement v [i] _).bind fun _ ↦ ih (i + 1)

theorem writeIn (v : Variable) : Blind (writeIn v) := by
  unfold Store.writeIn
  split
  · refine get_bind (fun s ↦ (ofExcept _).bind fun g ↦ ?_) fun _ _ ↦ rfl
    split
    · exact fill v 1 _
    · exact .throw _
  · refine readLine.bind fun line ↦ ?_
    exact (ofExcept _).bind fun x ↦ write v x

end Blind

end Store

open Store

namespace Expr

variable {s : Store} {r : Random.Source}

mutual

theorem eval_reseed : (e : Expr) → e.eval (s.reseed r) = e.eval s
  | .constant .. | .array _ => rfl
  | .var v => by rw [eval, eval, read_reseed]
  | .element a subs => by
    rw [eval, eval, evalAll_reseed subs]
    rfl
  | .unary op e => by rw [eval, eval, eval_reseed e]
  | .mingle x y => by rw [eval, eval, eval_reseed x, eval_reseed y]
  | .select x y => by rw [eval, eval, eval_reseed x, eval_reseed y]

theorem evalAll_reseed : (es : List Expr) → evalAll (s.reseed r) es = evalAll s es
  | [] => rfl
  | e :: es => by rw [evalAll, evalAll, eval_reseed e, evalAll_reseed es]

end

theorem value_blind (e : Expr) : Blind e.value := .ask fun _ _ ↦ eval_reseed e

theorem values_blind (es : List Expr) : Blind (values es) := .ask fun _ _ ↦ evalAll_reseed es

end Expr

theorem Effect.perform_blind (e : Effect) : Blind e.perform := by
  cases e with
  | assign target e =>
    cases target with
    | scalar v => exact e.value_blind.bind fun x ↦ .write v _
    | element a subs =>
      exact e.value_blind.bind fun x ↦ (Expr.values_blind subs).bind fun is ↦ .writeElement a is _
  | redimension a dims => exact (Expr.values_blind dims).bind fun is ↦ .redimension a is
  | stash vs => exact .forM .stash vs
  | retrieve vs => exact .forM .retrieve vs
  | ignore vs => exact .forM .ignore vs
  | remember vs => exact .forM .remember vs
  | readOut items =>
    refine .forM (fun item ↦ ?_) items
    split
    · exact .readOutArray _
    · exact item.value_blind.bind fun x ↦ .readOut _
  | writeIn vs => exact .forM .writeIn vs

namespace SystemLibrary

def drawing : Nat := 1900

/-- All routines but one leave the source alone, and so does the refusal of what is no routine. -/
theorem call_blind {routine : Nat} (h : routine ≠ drawing) : Blind (call routine) := by
  have hspot (n : Nat) : Blind (spot n) := .ask fun _ _ ↦ rfl
  have htwoSpot (n : Nat) : Blind (twoSpot n) := .ask fun _ _ ↦ rfl
  have hfitting (routine : Nat) (value : Option Word) : Blind (fitting routine value) := by
    cases value with
    | some x => exact .pure x
    | none => exact .throw _
  have hsetSpot (n : Nat) (x : Word) : Blind (setSpot n x) := .write _ _
  have hsetTwoSpot (n : Nat) (x : Word) : Blind (setTwoSpot n x) := .write _ _
  have hflagged {set : Nat → Word → Action Unit} (hset : ∀ n x, Blind (set n x)) (value : Option Word)
      (wrapped : Word) : Blind (flagged set value wrapped) := (hset _ _).bind fun _ ↦ hset _ _
  unfold call
  split
  case h_17 => exact absurd rfl h
  case h_18 => exact .throw _
  all_goals
    with_reducible repeat' first
      | exact hspot _
      | exact htwoSpot _
      | exact hfitting _ _
      | exact hsetSpot _ _
      | exact hsetTwoSpot _ _
      | exact hflagged hsetSpot _ _
      | exact hflagged hsetTwoSpot _ _
      | refine .bind ?_ fun _ ↦ ?_

end SystemLibrary

namespace Machine

variable {m : Machine} {s t : State} {r : Random.Source} {line : Nat}

def State.reseed (s : State) (r : Random.Source) : State := { s with store := s.store.reseed r }

def Turn.reseed (r : Random.Source) : Turn → Turn
  | .going s => .going (s.reseed r)
  | .ended e s => .ended e (s.reseed r)

def Step.reseed (r : Random.Source) (x : Step) : Step := (x.1.reseed r, x.2)

structure Certain (m : Machine) : Prop where
  guard {part : Part} {i : Instruction} : part ∈ m.parts → i ∈ part.chunk.instructions →
    i.guard.percent = 0 ∨ i.guard.percent = 100
  trapdoor {part : Part} {i : Instruction} {t : Trapdoor} : part ∈ m.parts → i ∈ part.chunk.instructions →
    i.trapdoor = some t → t.percent = 0 ∨ t.percent = 100

def BlindHosts (m : Machine) : Prop :=
  ∀ part ∈ m.parts, ∀ label c routines, part.linkage.owner? label = some c → c.body = .host routines →
    Blind (routines label)

def Draws (m : Machine) (s : State) : Prop :=
  ∃ t i label c, m.Performs s t i ∧ i.op = .nextLinked label ∧ label.value = SystemLibrary.drawing ∧
    (m.part s.site.part).linkage.owner? label = some c ∧ c.body = .system

theorem act_reseed {α : Type} {a : Action α} (ha : Blind a) {k : α → State → Step}
    (hk : ∀ x t, k x (State.reseed t r) = (k x t).reseed r) :
    m.act (s.reseed r) line a k = (m.act s line a k).reseed r := by
  have hrun : (s.reseed r).store.run a = ((s.store.run a).1, (s.store.run a).2.reseed r) := ha s.store r
  simp only [act, hrun]
  rcases s.store.run a with ⟨f | x, store⟩
  · rfl
  · exact hk x { s with store }

theorem next_reseed (label : Label) (target : Site) :
    m.next (s.reseed r) line label target = (m.next s line label target).reseed r := by
  have hframes : (s.reseed r).frames = s.frames := rfl
  have hsite : (s.reseed r).site = s.site := rfl
  simp only [next, hframes, hsite]
  cases Nexting.next m.maxDepth ⟨label, .site s.site⟩ s.frames <;> rfl

theorem resume_reseed (depth : Nat) : m.resume (s.reseed r) line depth = (m.resume s line depth).reseed r := by
  have hframes : (s.reseed r).frames = s.frames := rfl
  simp only [resume, hframes]
  rcases Nexting.resume depth s.frames with f | ⟨⟨label, waiter⟩, frames⟩
  · rfl
  · cases waiter <;> rfl

theorem call_reseed {label : Label} {c : Component}
    (hsystem : c.body = .system → label.value ≠ SystemLibrary.drawing)
    (hhost : ∀ routines, c.body = .host routines → Blind (routines label)) :
    m.call (s.reseed r) line label c = (m.call s line label c).reseed r := by
  unfold call
  cases hbody : c.body with
  | system => exact act_reseed (SystemLibrary.call_blind (hsystem hbody)) fun _ _ ↦ rfl
  | library number =>
    dsimp only
    cases (m.part number).chunk.entry? label with
    | some index => exact next_reseed label _
    | none => rfl
  | host routines =>
    refine act_reseed (hhost routines hbody) fun reply t ↦ ?_
    cases reply <;> rfl

theorem perform_reseed {op : Op}
    (hcall : ∀ label c, op = .nextLinked label → (m.part s.site.part).linkage.owner? label = some c →
      m.call (s.reseed r) line label c = (m.call s line label c).reseed r) :
    m.perform (s.reseed r) line op = (m.perform s line op).reseed r := by
  cases op with
  | effect e =>
    unfold perform
    exact act_reseed e.perform_blind fun _ _ ↦ rfl
  | next label entry => exact next_reseed label _
  | nextLinked label =>
    have hsite : (s.reseed r).site = s.site := rfl
    simp only [perform, hsite]
    cases howner : (m.part s.site.part).linkage.owner? label with
    | none => rfl
    | some c =>
      simp only [hcall label c rfl howner]
      rfl
  | resume e =>
    unfold perform
    refine act_reseed e.value_blind fun v t ↦ ?_
    split
    · rfl
    · exact resume_reseed _
  | forget e =>
    unfold perform
    exact act_reseed e.value_blind fun _ _ ↦ rfl
  | _ => rfl

theorem draw_reseed {percent : Nat} (h : percent = 0 ∨ percent = 100) :
    m.draw percent (s.reseed r) = (m.draw percent s).map fun x ↦ (x.1, x.2.reseed r) := by
  have hchance : (s.reseed r).store.chance percent =
      ((s.store.chance percent).1, (s.store.chance percent).2.reseed r) := chance_reseed h s.store r
  have hdraws : (s.reseed r).draws = s.draws := rfl
  simp only [draw, hchance, hdraws]
  split <;> rfl

theorem enterStatement_reseed (hm : m.Certain) (hhosts : m.BlindHosts) (hentering : s.leaving = false)
    (hdraws : ¬ m.Draws s) : m.enterStatement (s.reseed r) = (m.enterStatement s).reseed r := by
  have hinstruction : m.instruction? (s.reseed r) = m.instruction? s := rfl
  have hswitch : (s.reseed r).switch = s.switch := rfl
  cases hi : m.instruction? s with
  | none =>
    simp only [enterStatement, hinstruction, hi]
    rfl
  | some i =>
    have hpart := part_mem hi
    simp only [enterStatement, hinstruction, hi, hswitch]
    split
    · rfl
    · next hadmitted =>
      rw [draw_reseed (hm.guard hpart (Array.mem_of_getElem? hi))]
      rcases hdraw : m.draw i.guard.percent s with _ | ⟨_ | _, t⟩
      · rfl
      · rfl
      · have hperforms : m.Performs s t i := ⟨hentering, hi, by simpa using hadmitted, hdraw⟩
        have hsite : t.site = s.site := by rw [draw_eq hdraw]
        have hperform : m.perform (t.reseed r) i.line i.op = (m.perform t i.line i.op).reseed r := by
          refine perform_reseed fun label c hop howner ↦ call_reseed (fun hbody hlabel ↦ ?_) fun routines hbody ↦ ?_
          · exact hdraws ⟨t, i, label, c, hperforms, hop, hlabel, hsite ▸ howner, hbody⟩
          · exact hhosts _ hpart label c routines (hsite ▸ howner) hbody
        simp only [Option.map_some, hperform]
        rfl

theorem leaveStatement_reseed (hm : m.Certain) : m.leaveStatement (s.reseed r) = (m.leaveStatement s).reseed r := by
  have hinstruction : m.instruction? (s.reseed r) = m.instruction? s := rfl
  have hswitch : (s.reseed r).switch = s.switch := rfl
  cases hi : m.instruction? s with
  | none =>
    simp only [leaveStatement, hinstruction, hi]
    rfl
  | some i =>
    cases ht : i.trapdoor with
    | none =>
      simp only [leaveStatement, hinstruction, hi, Option.bind_some, ht]
      rfl
    | some door =>
      simp only [leaveStatement, hinstruction, hi, Option.bind_some, ht, hswitch]
      split
      · rfl
      · rw [draw_reseed (hm.trapdoor (part_mem hi) (Array.mem_of_getElem? hi) ht)]
        rcases m.draw door.percent s with _ | ⟨_ | _, t⟩ <;> rfl

theorem step_reseed (hm : m.Certain) (hhosts : m.BlindHosts) (hdraws : ¬ m.Draws s) (r : Random.Source) :
    m.step (s.reseed r) = (m.step s).reseed r := by
  have hleaving : (s.reseed r).leaving = s.leaving := rfl
  simp only [step, hleaving]
  split
  · exact leaveStatement_reseed hm
  · next hentering => exact enterStatement_reseed hm hhosts (by simpa using hentering) hdraws

theorem run_reseed (hm : m.Certain) (hhosts : m.BlindHosts) (r : Random.Source) (events : Array Event) {n : Nat}
    (hdraws : ∀ k < n, ∀ t, (m.run events k s).1 = .going t → ¬ m.Draws t) :
    m.run events n (s.reseed r) = ((m.run events n s).1.reseed r, (m.run events n s).2) := by
  induction n generalizing s events with
  | zero => rfl
  | succ n ih =>
    have hstep := step_reseed hm hhosts (hdraws 0 (Nat.succ_pos n) s rfl) r
    simp only [run, hstep, Step.reseed]
    rcases hs : m.step s with ⟨t | ⟨e, t⟩, new⟩
    · refine ih (events ++ new) fun k hk u hu ↦ hdraws (k + 1) (Nat.succ_lt_succ hk) u ?_
      simp only [run, hs]
      exact hu
    · rfl

end Machine

def Op.isLinked : Op → Bool
  | .nextLinked _ => true
  | _ => false

theorem Project.Sound.blindHosts {p : Project} (hp : p.Sound) (program : Chunk) (maxDraws : Option Nat) :
    (p.machine program maxDraws).BlindHosts := by
  intro part hpart label c routines howner hbody
  have hsupplies := hp.part_supplied hpart label c howner
  simp only [Component.Supplies, hbody] at hsupplies

namespace Machine

/-- Where nothing is left to chance and no random number is drawn, a run from another seed does the same, step by step
and to the last entry of the log, and the source in its store is never touched. Programs with their libraries call no
routine of the host, so that of them nothing more is asked. -/
theorem seed_independence :
    (∀ (m : Machine) s r events n, m.Certain → m.BlindHosts →
      (∀ k < n, ∀ t, (m.run events k s).1 = .going t → ¬ m.Draws t) →
      m.run events n (s.reseed r) = ((m.run events n s).1.reseed r, (m.run events n s).2)) ∧
    ∀ options (p : Project) program maxDraws store r events n, (Project.ofOptions options).Leads p →
      (p.machine program maxDraws).Certain →
      (∀ k < n, ∀ t, ((p.machine program maxDraws).run events k (p.start program store)).1 = .going t →
        ¬ (p.machine program maxDraws).Draws t) →
      (p.machine program maxDraws).run events n (p.start program (store.reseed r)) =
        (((p.machine program maxDraws).run events n (p.start program store)).1.reseed r,
          ((p.machine program maxDraws).run events n (p.start program store)).2) := by
  constructor
  · intro m s r events n hm hhosts hdraws
    exact run_reseed hm hhosts r events hdraws
  · intro options p program maxDraws store r events n hp hm hdraws
    have hhosts := (Project.Leads.sound hp (.ofOptions options)).blindHosts program maxDraws
    have hstart : p.start program (store.reseed r) = (p.start program store).reseed r := rfl
    rw [hstart]
    exact run_reseed hm hhosts r events hdraws

/-- No guard and no trapdoor is left to chance, and only statements without a chance lead to other components. -/
def settled (c : Chunk) : Bool :=
  c.instructions.toList.all fun i ↦ (i.guard.percent = 0 || i.guard.percent = 100 && !i.op.isLinked) &&
    i.trapdoor.all fun t ↦ t.percent = 0 || t.percent = 100

theorem of_mem_settled {c : Chunk} (h : settled c = true) {i : Instruction} (hi : i ∈ c.instructions) :
    (i.guard.percent = 0 ∨ i.guard.percent = 100 ∧ i.op.isLinked = false) ∧
      ∀ t, i.trapdoor = some t → t.percent = 0 ∨ t.percent = 100 := by
  have hall := List.all_eq_true.mp h i (Array.mem_toList_iff.mpr hi)
  simpa only [Bool.and_eq_true, Bool.or_eq_true, decide_eq_true_eq, Bool.not_eq_true', Option.all_eq_true] using hall

theorem certain_of_settled {m : Machine} (h : ∀ part ∈ m.parts, settled part.chunk = true) : m.Certain where
  guard hpart hi := (of_mem_settled (h _ hpart) hi).1.imp_right And.left
  trapdoor hpart hi ht := (of_mem_settled (h _ hpart) hi).2 _ ht

theorem not_draws_of_settled {m : Machine} (h : ∀ part ∈ m.parts, settled part.chunk = true) (s : State) :
    ¬ m.Draws s := by
  rintro ⟨t, i, label, c, performs, hop, -⟩
  have hlucky := performs.lucky
  have hi : i ∈ (m.chunk s).instructions := Array.mem_of_getElem? performs.here
  rcases (of_mem_settled (h _ (part_mem performs.here)) hi).1 with hnever | ⟨-, hlinked⟩
  · rw [hnever, draw] at hlucky
    split at hlucky <;> cases hlucky
  · rw [hop, Op.isLinked] at hlinked
    cases hlinked

def lottery : Machine where
  parts := #[⟨{ Chunk.empty "lottery" with
    instructions := #[⟨.effect (.assign (.scalar (.spot 1)) (.constant 7 false)), {}, some ⟨2, none, 0⟩, none, 1⟩,
      ⟨.nextLinked ⟨1900, by decide, by decide⟩, ⟨none, 0⟩, none, none, 2⟩, ⟨.comeFrom, {}, none, none, 3⟩,
      ⟨.giveUp, {}, none, none, 4⟩] }, (Linkage.empty.link .system).1⟩]
  maxDepth := 80

def ticket : State := ⟨⟨0, 0⟩, false, [], #[⟨#[]⟩], {}, 0⟩

def lotteryText : List Char :=
  "(1) DO .1 <- #7\nDO %0 (1900) NEXT\nDO %0 COME FROM (1)\nPLEASE GIVE UP".toList

def gaveUp : Turn → Bool
  | .ended .gaveUp _ => true
  | _ => false

theorem exists_of_gaveUp {turn : Turn} (h : gaveUp turn = true) : ∃ s, turn = .ended .gaveUp s := by
  unfold gaveUp at h
  split at h
  · exact ⟨_, rfl⟩
  · cases h

/-- A machine that is made by hand, and the program for it. -/
theorem seed_independence_lottery :
    (lottery.Certain ∧ lottery.BlindHosts ∧ (∃ t, (lottery.run #[] 7 ticket).1 = .ended .gaveUp t) ∧
      lottery.run #[] 7 (ticket.reseed ⟨5, 3⟩) =
        ((lottery.run #[] 7 ticket).1.reseed ⟨5, 3⟩, (lottery.run #[] 7 ticket).2)) ∧
    ∃ program log, Project.plain.compile "lottery.i" lotteryText = .ok (program, log) ∧
      (Project.plain.machine program none).Certain ∧
      (∃ t, ((Project.plain.machine program none).run #[] 7 (Project.plain.start program {})).1 = .ended .gaveUp t) ∧
      (Project.plain.machine program none).run #[] 7 (Project.plain.start program (Store.reseed {} ⟨5, 3⟩)) =
        (((Project.plain.machine program none).run #[] 7 (Project.plain.start program {})).1.reseed ⟨5, 3⟩,
          ((Project.plain.machine program none).run #[] 7 (Project.plain.start program {})).2) := by
  constructor
  · have hsettled : ∀ part ∈ lottery.parts, settled part.chunk = true := by
      intro part hpart
      rw [Array.mem_singleton.mp hpart]
      decide
    have hcertain := certain_of_settled hsettled
    have hhosts : lottery.BlindHosts := by
      intro part hpart label c routines howner hbody
      cases Array.mem_singleton.mp hpart
      rw [Linkage.owner?_link] at howner
      change (if label ∈ Component.system.exports then some Component.system else none) = some c at howner
      split at howner <;> cases howner
      cases hbody
    refine ⟨hcertain, hhosts, ⟨_, rfl⟩, ?_⟩
    exact seed_independence.1 lottery ticket ⟨5, 3⟩ #[] 7 hcertain hhosts fun _ _ t _ ↦ not_draws_of_settled hsettled t
  · have hfacts : (Project.plain.compile "lottery.i" lotteryText).toOption.map (fun x ↦ (settled x.1,
        gaveUp ((Project.plain.machine x.1 none).run #[] 7 (Project.plain.start x.1 {})).1)) = some (true, true) := by
      decide +kernel
    cases hcompile : Project.plain.compile "lottery.i" lotteryText with
    | error d =>
      rw [hcompile] at hfacts
      cases hfacts
    | ok x =>
      rw [hcompile] at hfacts
      obtain ⟨hchunk, hend⟩ := Prod.mk.inj (Option.some.inj hfacts)
      have hsettled : ∀ part ∈ (Project.plain.machine x.1 none).parts, settled part.chunk = true := by
        intro part hpart
        rw [Array.mem_singleton.mp hpart]
        exact hchunk
      refine ⟨x.1, x.2, rfl, certain_of_settled hsettled, exists_of_gaveUp hend, ?_⟩
      exact seed_independence.2 { optimize := false } Project.plain x.1 none {} ⟨5, 3⟩ #[] 7 .refl
        (certain_of_settled hsettled) fun _ _ t _ ↦ not_draws_of_settled hsettled t

end Machine

end Intercal
