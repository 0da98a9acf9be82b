import Intercal.Store.Session

namespace Intercal

/-- Whether the fault belongs to the store, to its streams or to the arithmetic, and not to the flow of control. -/
def Fault.ofStore : Fault → Bool
  | .unset _ | .noDimension _ | .hyperspace _ | .arrayAsValue _ | .tooWide .. | .nothingStashed _ | .mingleTooWide ..
  | .endOfInput | .notText | .notNumber _ | .overflow _ | .crash => true
  | .splat _ | .tooDeep _ | .lost _ | .unresolved _ | .rupture .. | .fellOff .. => false

def Fault.ofExpr : Fault → Bool
  | .unset _ | .hyperspace _ | .arrayAsValue _ | .mingleTooWide .. => true
  | _ => false

theorem Fault.ofStore_of_ofExpr {f : Fault} (h : f.ofExpr) : f.ofStore := by
  cases f with
  | unset | hyperspace | arrayAsValue | mingleTooWide => rfl
  | _ => cases h

theorem bind_eq_error {ε α β : Type} {x : Except ε α} {f : α → Except ε β} {e : ε} (h : x >>= f = .error e) :
    x = .error e ∨ ∃ a, x = .ok a ∧ f a = .error e := by
  cases x with
  | error e' =>
    cases h
    exact .inl rfl
  | ok a => exact .inr ⟨a, rfl, h⟩

namespace Store

variable {s : Store} {v : Variable} {f : Fault}

theorem read_error (h : s.read v = .error f) : f.ofExpr := by
  unfold read at h
  split at h
  · cases h
    rfl
  · split at h <;> cases h
    rfl

theorem grid_error (h : s.grid v = .error f) : f.ofExpr := by
  unfold grid at h
  split at h <;> cases h
  rfl

theorem readElement_error {subscripts : List Nat} (h : s.readElement v subscripts = .error f) : f.ofExpr := by
  rcases bind_eq_error h with hgrid | ⟨g, -, hget⟩
  · exact grid_error hgrid
  · split at hget <;> cases hget
    rfl

theorem lineNumber_error {line : List UInt8} (h : lineNumber line = .error f) : f.ofStore := by
  unfold lineNumber at h
  split at h
  · cases h
    rfl
  · split at h <;> cases h
    rfl

end Store

namespace Expr

variable {s : Store} {f : Fault}

mutual

theorem eval_error : {e : Expr} → e.eval s = .error f → f.ofExpr
  | .constant .., h => by cases h
  | .var v, h => by
    rcases bind_eq_error h with hread | ⟨x, -, hx⟩
    · exact Store.read_error hread
    · cases hx
  | .element a subs, h => by
    rcases bind_eq_error h with hsubs | ⟨is, -, hread⟩
    · exact evalAll_error hsubs
    · rcases bind_eq_error hread with hread | ⟨x, -, hx⟩
      · exact Store.readElement_error hread
      · cases hx
  | .array v, h => by
    cases h
    rfl
  | .unary op e, h => by
    rcases bind_eq_error h with he | ⟨x, -, hx⟩
    · exact eval_error he
    · cases hx
  | .mingle l r, h => by
    rcases bind_eq_error h with hl | ⟨x, -, h⟩
    · exact eval_error hl
    · rcases bind_eq_error h with hr | ⟨y, -, h⟩
      · exact eval_error hr
      · rcases bind_eq_error h with hmingle | ⟨z, -, hz⟩
        · unfold Bits.mingle at hmingle
          split at hmingle <;> cases hmingle
          rfl
        · cases hz
  | .select l r, h => by
    rcases bind_eq_error h with hl | ⟨x, -, h⟩
    · exact eval_error hl
    · rcases bind_eq_error h with hr | ⟨y, -, hy⟩
      · exact eval_error hr
      · cases hy

theorem evalAll_error : {es : List Expr} → evalAll s es = .error f → f.ofExpr
  | [], h => by cases h
  | e :: es, h => by
    rcases bind_eq_error h with he | ⟨x, -, h⟩
    · exact eval_error he
    · rcases bind_eq_error h with hes | ⟨xs, -, hxs⟩
      · exact evalAll_error hes
      · cases hxs

end

end Expr

def SystemLibrary.results : Nat → List Variable
  | 1000 | 1010 | 1030 | 1040 => [.spot 3]
  | 1009 | 1039 => [.spot 3, .spot 4]
  | 1020 | 1900 => [.spot 1]
  | 1050 => [.spot 2]
  | 1500 | 1510 | 1540 | 1550 => [.twoSpot 3]
  | 1509 | 1549 => [.twoSpot 3, .twoSpot 4]
  | 1520 | 1530 => [.twoSpot 1]
  | _ => []

namespace Store

inductive Change where
  | write (v : Variable) (x : Word)
  | writeElement (v : Variable) (subscripts : List Nat) (x : Word)
  | redimension (v : Variable) (dimensions : List Nat)
  | stash (v : Variable)
  | retrieve (v : Variable)
  | ignore (v : Variable)
  | remember (v : Variable)

namespace Change

def act : Change → Action Unit
  | .write v x => Store.write v x
  | .writeElement v subscripts x => Store.writeElement v subscripts x
  | .redimension v dimensions => Store.redimension v dimensions
  | .stash v => Store.stash v
  | .retrieve v => Store.retrieve v
  | .ignore v => Store.ignore v
  | .remember v => Store.remember v

def subject : Change → Variable
  | .write v _ | .writeElement v _ _ | .redimension v _ | .stash v | .retrieve v | .ignore v | .remember v => v

end Change

def Request.Causes : Request → Change → Prop
  | .write v x, c => c = .write v x
  | .writeElement v subscripts x, c => c = .writeElement v subscripts x
  | .redimension v dimensions, c => c = .redimension v dimensions
  | .stash v, c => c = .stash v
  | .retrieve v, c => c = .retrieve v
  | .ignore v, c => c = .ignore v
  | .remember v, c => c = .remember v
  | .writeIn v, c => (∃ x, c = .write v x) ∨ ∃ subscripts x, c = .writeElement v subscripts x
  | .call routine, c => ∃ v ∈ SystemLibrary.results routine, ∃ x, c = .write v x
  | _, _ => False

variable {α β : Type} {I : Store → Prop} {F : Fault → Prop}

/-- However the action ends, the first property is kept up, and if it faults then as the second allows. -/
def Keeps (I : Store → Prop) (F : Fault → Prop) (a : Action α) : Prop :=
  ∀ s, I s → I (s.run a).2 ∧ ∀ f, (s.run a).1 = .error f → F f

theorem run_bind (s : Store) (a : Action α) (f : α → Action β) :
    s.run (a >>= f) = match s.run a with
      | (.ok x, t) => t.run (f x)
      | (.error e, t) => (.error e, t) := by
  simp only [run, bind, ExceptT.bind, ExceptT.mk, StateT.bind]
  rcases a s with ⟨_ | _, t⟩ <;> rfl

theorem run_bind_ok {s t : Store} {a : Action α} {x : α} (h : s.run a = (.ok x, t)) (f : α → Action β) :
    s.run (a >>= f) = t.run (f x) := by
  rw [run_bind, h]

theorem run_bind_error {s t : Store} {a : Action α} {e : Fault} (h : s.run a = (.error e, t)) (f : α → Action β) :
    s.run (a >>= f) = (.error e, t) := by
  rw [run_bind, h]

section Ask

variable {s : Store} {g : Store → Except Fault α} {f : Fault}

theorem run_ask_ok {x : α} (h : g s = .ok x) (k : α → Action β) : s.run (Request.ask g >>= k) = s.run (k x) :=
  run_bind_ok (congrArg (·, s) h) k

theorem run_ask_error (h : g s = .error f) (k : α → Action β) : s.run (Request.ask g >>= k) = (.error f, s) :=
  run_bind_error (congrArg (·, s) h) k

end Ask

namespace Keeps

theorem holds {s t : Store} {a : Action α} {x : Except Fault α} (ha : Keeps I F a) (hs : I s) (h : s.run a = (x, t)) :
    I t := by
  have hrun := (ha s hs).1
  rwa [h] at hrun

theorem bind {a : Action α} {f : α → Action β} (ha : Keeps I F a) (hf : ∀ x, Keeps I F (f x)) :
    Keeps I F (a >>= f) := by
  intro s hs
  have hrun := ha s hs
  rw [run_bind]
  generalize s.run a = r at hrun ⊢
  obtain ⟨e | x, t⟩ := r
  · refine ⟨hrun.1, fun f hf ↦ ?_⟩
    cases hf
    exact hrun.2 e rfl
  · exact hf x t hrun.1

theorem ask {f : Store → Except Fault α} (h : ∀ s e, f s = .error e → F e) : Keeps I F (Request.ask f) :=
  fun s hs ↦ ⟨hs, h s⟩

theorem pure (x : α) : Keeps I F (pure x) := ask (f := fun _ ↦ .ok x) nofun

theorem get : Keeps I F (getThe Store) := ask (f := .ok) nofun

theorem throw {f : Fault} (h : F f) : Keeps I F (throw f : Action α) := by
  refine ask (f := fun _ ↦ .error f) fun _ e he ↦ ?_
  cases he
  exact h

theorem ofExcept {x : Except Fault α} (h : ∀ e, x = .error e → F e) : Keeps I F (x : Action α) := by
  cases x with
  | ok x => exact .pure x
  | error e => exact .throw (h e rfl)

theorem done {a : Action Unit} (ha : Keeps I F a) : Keeps I F (Request.done a) := ha.bind fun _ ↦ .pure _

theorem forM {a : α → Action Unit} (ha : ∀ x, Keeps I F (a x)) (xs : List α) : Keeps I F (xs.forM a) := by
  induction xs with
  | nil => exact .pure _
  | cons x xs ih => exact (ha x).bind fun _ ↦ ih

end Keeps

/-- The first property does not depend on the source of random numbers, and the second allows all faults of the
store. -/
structure Aside (I : Store → Prop) (F : Fault → Prop) : Prop where
  source {s : Store} (source : Random.Source) : I s → I { s with source }
  faults {f : Fault} : f.ofStore → F f

structure Detached (I : Store → Prop) (F : Fault → Prop) : Prop where
  streams {s t : Store} : t.scalars = s.scalars → t.arrays = s.arrays → I s → I t
  faults {f : Fault} : f.ofStore → F f

structure Steady (I : Store → Prop) (F : Fault → Prop) : Prop extends Detached I F where
  write (v : Variable) (x : Word) : Keeps I F (write v x)
  writeElement (v : Variable) (subscripts : List Nat) (x : Word) : Keeps I F (writeElement v subscripts x)
  redimension (v : Variable) (dimensions : List Nat) : Keeps I F (redimension v dimensions)
  stash (v : Variable) : Keeps I F (stash v)
  retrieve (v : Variable) : Keeps I F (retrieve v)
  ignore (v : Variable) : Keeps I F (ignore v)
  remember (v : Variable) : Keeps I F (remember v)

def Request.streams : Request → Bool
  | .readOut _ | .readOutArray _ | .writeIn _ => true
  | _ => false

theorem chance_source (percent : Nat) (s : Store) : ∃ source, (s.chance percent).2 = { s with source } := by
  unfold chance
  split
  · exact ⟨s.source, rfl⟩
  · split
    · exact ⟨s.source, rfl⟩
    · exact ⟨_, rfl⟩

theorem random_source (bound : Nat) (s : Store) : ∃ source, (s.random bound).2 = { s with source } := by
  unfold random
  split
  · exact ⟨s.source, rfl⟩
  · exact ⟨_, rfl⟩

theorem random_banks (bound : Nat) (s : Store) :
    (s.random bound).2.scalars = s.scalars ∧ (s.random bound).2.arrays = s.arrays := by
  obtain ⟨source, hsource⟩ := random_source bound s
  rw [hsource]
  exact ⟨rfl, rfl⟩

namespace Aside

theorem expr (h : Aside I F) {f : Fault} (hf : f.ofExpr) : F f := h.faults (Fault.ofStore_of_ofExpr hf)

theorem change (h : Aside I F) {f : Store → α × Store} (hf : ∀ s, ∃ source, (f s).2 = { s with source }) :
    Keeps I F (Request.change f) := by
  intro s hs
  obtain ⟨source, hsource⟩ := hf s
  refine ⟨?_, fun _ hf ↦ nomatch hf⟩
  change I (f s).2
  rw [hsource]
  exact h.source source hs

theorem value (h : Aside I F) (e : Expr) : Keeps I F e.value := .ask fun _ _ he ↦ h.expr (Expr.eval_error he)

theorem values (h : Aside I F) (es : List Expr) : Keeps I F (Expr.values es) :=
  .ask fun _ _ he ↦ h.expr (Expr.evalAll_error he)

theorem fill {v : Variable} (hbyte : Keeps I F readByte) (hlast : ∀ b, Keeps I F (modify ({ · with lastIn := b })))
    (hwrite : ∀ subscripts x, Keeps I F (writeElement v subscripts x)) (i n : Nat) : Keeps I F (fill v i n) := by
  induction n generalizing i with
  | zero => exact .pure _
  | succ n ih =>
    refine hbyte.bind fun b ↦ Keeps.get.bind fun s ↦ (hlast b).bind fun _ ↦ ?_
    exact (hwrite [i] _).bind fun _ ↦ ih (i + 1)

theorem writeIn (h : Aside I F) {v : Variable} (hbyte : Keeps I F readByte)
    (hlast : ∀ b, Keeps I F (modify ({ · with lastIn := b }))) (hline : Keeps I F readLine)
    (hwrite : ∀ x, Keeps I F (write v x)) (helement : ∀ subscripts x, Keeps I F (writeElement v subscripts x)) :
    Keeps I F (writeIn v) := by
  unfold Store.writeIn
  split
  · refine Keeps.get.bind fun s ↦ (Keeps.ofExcept fun e he ↦ h.expr (grid_error he)).bind fun g ↦ ?_
    split
    · exact fill hbyte hlast helement 1 _
    · exact .throw (h.faults rfl)
  · refine hline.bind fun line ↦ ?_
    exact (Keeps.ofExcept fun e he ↦ h.faults (lineNumber_error he)).bind fun x ↦ hwrite x

section SystemLibrary

open SystemLibrary

theorem number (h : Aside I F) (v : Variable) : Keeps I F (Request.ask fun s ↦ s.read v) :=
  .ask fun _ _ he ↦ h.expr (read_error he)

theorem fitting (h : Aside I F) (routine : Nat) (value : Option Word) : Keeps I F (fitting routine value) := by
  cases value with
  | some x => exact .pure x
  | none => exact .throw (h.faults rfl)

theorem flagged {set : Nat → Word → Action Unit} (hthree : ∀ x, Keeps I F (set 3 x)) (hfour : ∀ x, Keeps I F (set 4 x))
    (value : Option Word) (wrapped : Word) : Keeps I F (flagged set value wrapped) :=
  (hthree _).bind fun _ ↦ hfour _

theorem draw (h : Aside I F) (bound : Nat) :
    Keeps I F (fun s ↦ let (x, s) := s.random bound; (.ok x, s) : Action Word) :=
  h.change (random_source bound)

theorem call (h : Aside I F) {routine : Nat} (hwrite : ∀ v ∈ results routine, ∀ x, Keeps I F (write v x))
    (hroutine : routine ∈ routines ∨ F (.lost routine)) : Keeps I F (call routine) := by
  have spot (n : Nat) : Keeps I F (spot n) := h.number _
  have twoSpot (n : Nat) : Keeps I F (twoSpot n) := h.number _
  have setSpot (n : Nat) (x : Word) (hn : .spot n ∈ results routine) : Keeps I F (setSpot n x) :=
    hwrite (.spot n) hn x
  have setTwoSpot (n : Nat) (x : Word) (hn : .twoSpot n ∈ results routine) : Keeps I F (setTwoSpot n x) :=
    hwrite (.twoSpot n) hn x
  unfold SystemLibrary.call
  split
  case h_17 =>
    generalize short = bound
    exact (h.draw bound).bind fun x ↦ hwrite _ (by decide) x
  case h_18 => exact .throw (hroutine.resolve_left (by simp_all [routines]))
  all_goals
    with_reducible repeat' first
      | exact spot _
      | exact twoSpot _
      | exact h.fitting _ _
      | exact setSpot _ _ (by decide)
      | exact setTwoSpot _ _ (by decide)
      | exact flagged (setSpot 3 · (by decide)) (setSpot 4 · (by decide)) _ _
      | exact flagged (setTwoSpot 3 · (by decide)) (setTwoSpot 4 · (by decide)) _ _
      | refine .bind ?_ fun _ ↦ ?_

end SystemLibrary

/-- What the changes that a request may cause keep up, serving it keeps up, if only it has nothing to do with the
streams or keeps it up as well. -/
theorem request (h : Aside I F) (hlost : ∀ routine, F (.lost routine)) {r : Request}
    (hstreams : r.streams = true → Keeps I F r.serve) (hr : ∀ c, r.Causes c → Keeps I F c.act) : Keeps I F r.serve := by
  cases r with
  | read v => exact (Keeps.ask fun _ _ he ↦ h.expr (read_error he)).bind fun _ ↦ .pure _
  | write v x => exact (hr (.write v x) rfl).done
  | readElement v subscripts =>
    exact (Keeps.ask fun _ _ he ↦ h.expr (readElement_error he)).bind fun _ ↦ .pure _
  | writeElement v subscripts x => exact (hr (.writeElement v subscripts x) rfl).done
  | redimension v dimensions => exact (hr (.redimension v dimensions) rfl).done
  | stash v => exact (hr (.stash v) rfl).done
  | retrieve v => exact (hr (.retrieve v) rfl).done
  | ignore v => exact (hr (.ignore v) rfl).done
  | remember v => exact (hr (.remember v) rfl).done
  | readOut x => exact hstreams rfl
  | readOutArray v => exact hstreams rfl
  | writeIn v => exact hstreams rfl
  | chance percent => exact (h.change (chance_source percent)).bind fun _ ↦ .pure _
  | random bound => exact (h.change (random_source bound)).bind fun _ ↦ .pure _
  | call routine =>
    have hwrite (v : Variable) (hv : v ∈ SystemLibrary.results routine) (x : Word) := hr (.write v x) ⟨v, hv, x, rfl⟩
    exact (h.call hwrite (.inr (hlost routine))).done
  | eval e => exact (h.value e).bind fun _ ↦ .pure _
  | contents => exact (Keeps.ask nofun).bind fun _ ↦ .pure _

end Aside

namespace Detached

theorem aside (h : Detached I F) : Aside I F := ⟨fun {s} _ ↦ h.streams (s := s) rfl rfl, h.faults⟩

theorem expr (h : Detached I F) {f : Fault} (hf : f.ofExpr) : F f := h.faults (Fault.ofStore_of_ofExpr hf)

theorem of_banks (h : Detached I F) {a : Action α}
    (ha : ∀ s : Store, (s.run a).2.scalars = s.scalars ∧ (s.run a).2.arrays = s.arrays ∧
      ∀ f, (s.run a).1 = .error f → f.ofStore) : Keeps I F a := by
  intro s hs
  obtain ⟨hscalars, harrays, hfaults⟩ := ha s
  exact ⟨h.streams hscalars harrays hs, fun f hf ↦ h.faults (hfaults f hf)⟩

theorem readOut (h : Detached I F) (x : Word) : Keeps I F (readOut x) :=
  h.of_banks fun _ ↦ ⟨rfl, rfl, fun _ hf ↦ nomatch hf⟩

theorem readOutArray (h : Detached I F) (v : Variable) : Keeps I F (readOutArray v) := by
  refine h.of_banks fun s ↦ ?_
  unfold Store.run Store.readOutArray
  split
  · next f hgrid =>
    refine ⟨rfl, rfl, fun e he ↦ ?_⟩
    cases he
    exact Fault.ofStore_of_ofExpr (grid_error hgrid)
  · exact ⟨rfl, rfl, fun _ hf ↦ nomatch hf⟩

theorem readByte (h : Detached I F) : Keeps I F readByte := by
  refine h.of_banks fun s ↦ ?_
  unfold Store.run Store.readByte
  split
  · exact ⟨rfl, rfl, fun _ hf ↦ nomatch hf⟩
  · refine ⟨rfl, rfl, fun e he ↦ ?_⟩
    cases he
    rfl

theorem readLine (h : Detached I F) : Keeps I F readLine := by
  refine h.of_banks fun s ↦ ?_
  unfold Store.run Store.readLine
  split
  · refine ⟨rfl, rfl, fun e he ↦ ?_⟩
    cases he
    rfl
  · exact ⟨rfl, rfl, fun _ hf ↦ nomatch hf⟩

theorem writeIn (h : Detached I F) {v : Variable} (hwrite : ∀ x, Keeps I F (write v x))
    (helement : ∀ subscripts x, Keeps I F (writeElement v subscripts x)) : Keeps I F (writeIn v) :=
  h.aside.writeIn h.readByte (fun _ ↦ h.of_banks fun _ ↦ ⟨rfl, rfl, fun _ hf ↦ nomatch hf⟩) h.readLine hwrite helement

/-- What the changes that a request may cause keep up, serving it keeps up. -/
theorem request (h : Detached I F) (hlost : ∀ routine, F (.lost routine)) {r : Request}
    (hr : ∀ c, r.Causes c → Keeps I F c.act) : Keeps I F r.serve := by
  refine h.aside.request hlost (fun hstreams ↦ ?_) hr
  cases r with
  | readOut x => exact (h.readOut x).done
  | readOutArray v => exact (h.readOutArray v).done
  | writeIn v =>
    have hwrite (x : Word) := hr (.write v x) (.inl ⟨x, rfl⟩)
    have helement (subscripts : List Nat) (x : Word) := hr (.writeElement v subscripts x) (.inr ⟨subscripts, x, rfl⟩)
    exact (h.writeIn hwrite helement).done
  | _ => cases hstreams

end Detached

namespace Steady

theorem act (h : Steady I F) (c : Change) : Keeps I F c.act := by
  cases c with
  | write v x => exact h.write v x
  | writeElement v subscripts x => exact h.writeElement v subscripts x
  | redimension v dimensions => exact h.redimension v dimensions
  | stash v => exact h.stash v
  | retrieve v => exact h.retrieve v
  | ignore v => exact h.ignore v
  | remember v => exact h.remember v

theorem of_act (h : Detached I F) (hact : ∀ c : Change, Keeps I F c.act) : Steady I F where
  toDetached := h
  write v x := hact (.write v x)
  writeElement v subscripts x := hact (.writeElement v subscripts x)
  redimension v dimensions := hact (.redimension v dimensions)
  stash v := hact (.stash v)
  retrieve v := hact (.retrieve v)
  ignore v := hact (.ignore v)
  remember v := hact (.remember v)

theorem writeIn (h : Steady I F) (v : Variable) : Keeps I F (writeIn v) :=
  h.toDetached.writeIn (h.write v) (h.writeElement v)

theorem perform (h : Steady I F) (e : Effect) : Keeps I F e.perform := by
  cases e with
  | assign target value =>
    cases target with
    | scalar v => exact (h.aside.value value).bind fun x ↦ h.write v x.bits
    | element a subs =>
      exact (h.aside.value value).bind fun x ↦ (h.aside.values subs).bind fun is ↦ h.writeElement a is x.bits
  | redimension a dims => exact (h.aside.values dims).bind fun ds ↦ h.redimension a ds
  | stash vs => exact .forM h.stash vs
  | retrieve vs => exact .forM h.retrieve vs
  | ignore vs => exact .forM h.ignore vs
  | remember vs => exact .forM h.remember vs
  | readOut items =>
    refine .forM (fun item ↦ ?_) items
    cases item with
    | array v => exact h.readOutArray v
    | _ => exact (h.aside.value _).bind fun x ↦ h.readOut x.bits
  | writeIn vs => exact .forM h.writeIn vs

theorem call (h : Steady I F) {routine : Nat} (hroutine : routine ∈ SystemLibrary.routines ∨ F (.lost routine)) :
    Keeps I F (SystemLibrary.call routine) :=
  h.aside.call (fun v _ ↦ h.write v) hroutine

theorem request (h : Steady I F) (hlost : ∀ routine, F (.lost routine)) (r : Request) : Keeps I F r.serve :=
  h.toDetached.request hlost fun c _ ↦ h.act c

theorem serve (h : Steady I F) (hlost : ∀ routine, F (.lost routine)) (rs : List Request) {s : Store} (hs : I s) :
    I (serve s rs).2 := by
  induction rs generalizing s with
  | nil => exact hs
  | cons r rs ih => exact ih (h.request hlost r s hs).1

/-- The cells fault only as the store does. -/
theorem mild : Steady (fun _ ↦ True) fun f ↦ f.ofStore where
  streams _ _ _ := trivial
  faults := id
  write v x s _ := by
    refine ⟨trivial, fun f hf ↦ ?_⟩
    unfold run Store.write at hf
    dsimp only at hf
    repeat' split at hf
    all_goals cases hf
    all_goals rfl
  writeElement v subscripts x s _ := by
    refine ⟨trivial, fun f hf ↦ ?_⟩
    unfold run Store.writeElement at hf
    repeat' split at hf
    all_goals cases hf
    all_goals rfl
  redimension v dimensions s _ := by
    refine ⟨trivial, fun f hf ↦ ?_⟩
    unfold run Store.redimension at hf
    dsimp only at hf
    repeat' split at hf
    all_goals cases hf
    all_goals rfl
  stash v s _ := by
    refine ⟨trivial, fun f hf ↦ ?_⟩
    unfold run Store.stash at hf
    split at hf <;> cases hf
  retrieve v s _ := by
    refine ⟨trivial, fun f hf ↦ ?_⟩
    unfold run Store.retrieve at hf
    repeat' split at hf
    all_goals cases hf
    all_goals rfl
  ignore v s _ := by
    refine ⟨trivial, fun f hf ↦ ?_⟩
    unfold run Store.ignore at hf
    split at hf <;> cases hf
  remember v s _ := by
    refine ⟨trivial, fun f hf ↦ ?_⟩
    unfold run Store.remember at hf
    split at hf <;> cases hf

end Steady

end Store

end Intercal
