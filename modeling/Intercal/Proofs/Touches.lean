import Intercal.Proofs.Routines
import Intercal.Proofs.Stashes

namespace Intercal

namespace Store

variable {s t : Store} {v w : Variable} {c : Change}

/-- The number of a scalar arrives on a line: either something is wrong with the line, or the number is written. -/
theorem run_writeIn (hv : v.kind.isArray = false) (s : Store) :
    (∃ f t, s.run (writeIn v) = (.error f, t) ∧ (∀ w x, f ≠ .tooWide w x) ∧
        t.scalars = s.scalars ∧ t.arrays = s.arrays) ∨
      ∃ (x : Word) (t : Store), s.run (writeIn v) = t.run (write v x) ∧
        t.scalars = s.scalars ∧ t.arrays = s.arrays := by
  rw [writeIn, hv, if_neg Bool.false_ne_true, run_bind]
  rcases hinput : s.input with _ | ⟨b, rest⟩
  · refine .inl ⟨.endOfInput, s, ?_, nofun, rfl, rfl⟩
    simp only [run, readLine, hinput]
  · have hline : s.run readLine = (.ok (splitLine s.input).1, { s with input := (splitLine s.input).2 }) := by
      simp only [run, readLine, hinput]
    rw [hline]
    dsimp only
    rw [run_bind]
    cases hnumber : lineNumber (splitLine s.input).1 with
    | error f =>
      refine .inl ⟨f, _, rfl, ?_, rfl, rfl⟩
      rintro w x rfl
      unfold lineNumber at hnumber
      split at hnumber
      · cases hnumber
      · split at hnumber <;> cases hnumber
    | ok x => exact .inr ⟨x, _, rfl, rfl, rfl⟩

theorem scalars_writeElement (s : Store) (v : Variable) (subscripts : List Nat) (x : Word) :
    (s.run (writeElement v subscripts x)).2.scalars = s.scalars := by
  unfold run writeElement
  repeat' split
  all_goals rfl

theorem scalars_redimension (s : Store) (v : Variable) (dimensions : List Nat) :
    (s.run (redimension v dimensions)).2.scalars = s.scalars := by
  unfold run redimension
  dsimp only
  repeat' split
  all_goals rfl

def Change.makes (v : Variable) : Change → Bool
  | .write w _ | .stash w | .ignore w => w = v
  | _ => false

theorem cell_of_not_known (hv : v.kind.isArray = false) (hs : ¬ s.Known v) : s.cell v = ⟨.number 0, false, []⟩ := by
  have hnone : s.scalars.get? v = none := Option.not_isSome_iff_eq_none.mp hs
  simp only [cell, hv, Bool.false_eq_true, if_false, Bank.cell, hnone]
  rfl

theorem Change.not_known (hv : v.kind.isArray = false) (hc : c.makes v = false) (hs : ¬ s.Known v) :
    ¬ (s.run c.act).2.Known v := by
  by_cases hsubject : c.subject = v
  · cases c with
    | write w x | stash w | ignore w => exact absurd hsubject (of_decide_eq_false hc)
    | writeElement w subscripts x => rwa [act, Known, scalars_writeElement]
    | redimension w dimensions => rwa [act, Known, scalars_redimension]
    | retrieve w =>
      obtain rfl : w = v := hsubject
      rwa [act, run_retrieve_of_nil (by rw [cell_of_not_known hv hs])]
    | remember w =>
      obtain rfl : w = v := hsubject
      have hnone : s.scalars.get? w = none := Option.not_isSome_iff_eq_none.mp hs
      simpa only [act, run, Store.remember, hv, Bool.false_eq_true, if_false, Bank.remember, hnone] using hs
  · rwa [Known, ((act_replaces c s).get? hsubject).1]

theorem Change.known (hv : v.kind.isArray = false) (hc : c.makes v = true) (s : Store) : (s.run c.act).2.Known v := by
  cases c with
  | write w x =>
    obtain rfl : w = v := of_decide_eq_true hc
    rcases run_write hv s x with ⟨t, ht, hknown⟩ | ⟨t, ht, -, hknown, -⟩
    all_goals rwa [act, ht]
  | stash w =>
    obtain rfl : w = v := of_decide_eq_true hc
    simp only [act, run, Store.stash, hv, Bool.false_eq_true, if_false]
    exact known_insert s _ w _
  | ignore w =>
    obtain rfl : w = v := of_decide_eq_true hc
    simp only [act, run, Store.ignore, hv, Bool.false_eq_true, if_false]
    exact known_insert s _ w _
  | _ => cases hc

namespace Request

/-- Whether a number was there to be written, even if there was no room for it. -/
def arrived : Except Fault Unit → Bool
  | .ok _ | .error (.tooWide ..) => true
  | .error _ => false

/-- Whether serving the request makes sure that there is a cell for the scalar. -/
def touches (v : Variable) (s : Store) : Request → Bool
  | .write w _ | .stash w | .ignore w => w = v
  | .writeIn w => w = v && arrived (s.run (Store.writeIn w)).1
  | .call routine => v ∈ SystemLibrary.results routine && (s.run (SystemLibrary.call routine)).1.isOk
  | _ => false

def aims (v : Variable) : Request → Bool
  | .write w _ | .writeIn w => w = v
  | .call routine => v ∈ SystemLibrary.results routine
  | _ => false

def writes (v : Variable) (s : Store) (r : Request) : Bool :=
  r.aims v && !(s.cell v).ignored && (s.run r.serve).1.isOk

variable {r : Request}

theorem not_known_of_causes (hv : v.kind.isArray = false) (hr : ∀ c, r.Causes c → c.makes v = false)
    (hs : ¬ s.Known v) : ¬ (s.run r.serve).2.Known v := by
  have hdetached : Detached (¬ Known v ·) fun _ ↦ True :=
    ⟨fun hscalars _ h ↦ by rwa [Known, hscalars], fun _ ↦ trivial⟩
  refine (hdetached.request (fun _ ↦ trivial) fun c hc t ht ↦ ⟨?_, fun _ _ ↦ trivial⟩) s hs |>.1
  exact Change.not_known hv (hr c hc) ht

theorem arrived_eq_false {f : Fault} (hf : ∀ w x, f ≠ .tooWide w x) : arrived (.error f) = false := by
  unfold arrived
  split
  · next h => cases h
  · next h =>
    cases h
    exact absurd rfl (hf _ _)
  · rfl

theorem known_writeIn (hv : v.kind.isArray = false) (hs : ¬ s.Known v) :
    (s.run (Store.writeIn v)).2.Known v ↔ arrived (s.run (Store.writeIn v)).1 = true := by
  rcases run_writeIn hv s with ⟨f, t, hrun, hf, hscalars, -⟩ | ⟨x, t, hrun, -⟩
  · rw [hrun, arrived_eq_false hf, Known, hscalars]
    exact iff_of_false hs Bool.false_ne_true
  · rw [hrun]
    rcases run_write hv t x with ⟨u, hu, hknown⟩ | ⟨u, hu, -, hknown, -⟩
    all_goals
      rw [hu]
      exact iff_of_true hknown rfl

theorem known_call {routine : Nat} (hv : v ∈ SystemLibrary.results routine) (hs : s.Sound) (hknown : ¬ s.Known v) :
    (s.run (SystemLibrary.call routine)).2.Known v ↔ (s.run (SystemLibrary.call routine)).1.isOk = true := by
  rcases settles_call routine s hs with ⟨f, t, hrun, hscalars, -⟩ | ⟨t, hrun, hvs⟩
  · rw [hrun, Known, hscalars]
    exact iff_of_false hknown Bool.false_ne_true
  · rw [hrun]
    exact iff_of_true (hvs v hv) rfl

theorem known_serve (hv : v.kind.isArray = false) (hs : s.Sound) (r : Request) :
    (s.run r.serve).2.Known v ↔ s.Known v ∨ r.touches v s = true := by
  by_cases hknown : s.Known v
  · exact iff_of_true ((steady_known v).request (fun _ ↦ trivial) r s hknown).1 (.inl hknown)
  rw [or_iff_right hknown]
  have hother (h : ∀ c, r.Causes c → c.makes v = false) (htouches : r.touches v s = false) :
      (s.run r.serve).2.Known v ↔ r.touches v s = true :=
    iff_of_false (not_known_of_causes hv h hknown) (by rw [htouches]; exact Bool.false_ne_true)
  have hchange (c : Change) (hserve : r.serve = done c.act) (hcauses : ∀ d, r.Causes d → d = c)
      (htouches : r.touches v s = c.makes v) : (s.run r.serve).2.Known v ↔ r.touches v s = true := by
    cases hmakes : c.makes v with
    | true =>
      rw [hserve, run_done, htouches, hmakes]
      exact iff_of_true (c.known hv hmakes s) rfl
    | false =>
      refine hother (fun d hd ↦ ?_) (htouches.trans hmakes)
      rwa [hcauses d hd]
  cases r with
  | write w x => exact hchange (.write w x) rfl (fun _ ↦ id) rfl
  | stash w => exact hchange (.stash w) rfl (fun _ ↦ id) rfl
  | retrieve w => exact hchange (.retrieve w) rfl (fun _ ↦ id) rfl
  | ignore w => exact hchange (.ignore w) rfl (fun _ ↦ id) rfl
  | remember w => exact hchange (.remember w) rfl (fun _ ↦ id) rfl
  | writeElement w subscripts x => exact hchange (.writeElement w subscripts x) rfl (fun _ ↦ id) rfl
  | redimension w dimensions => exact hchange (.redimension w dimensions) rfl (fun _ ↦ id) rfl
  | writeIn w =>
    by_cases hw : w = v
    · subst hw
      rw [serve, run_done, known_writeIn hv hknown, touches, decide_eq_true rfl, Bool.true_and]
    · refine hother (fun c hc ↦ ?_) (by rw [touches, decide_eq_false hw, Bool.false_and])
      rcases hc with ⟨x, rfl⟩ | ⟨subscripts, x, rfl⟩
      · exact decide_eq_false hw
      · rfl
  | call routine =>
    by_cases hresult : v ∈ SystemLibrary.results routine
    · rw [serve, run_done, known_call hresult hs hknown, touches, decide_eq_true hresult, Bool.true_and]
    · refine hother (fun c hc ↦ ?_) (by rw [touches, decide_eq_false hresult, Bool.false_and])
      obtain ⟨w, hw, x, rfl⟩ := hc
      refine decide_eq_false ?_
      rintro rfl
      exact hresult hw
  | _ => exact hother (fun _ hc ↦ hc.elim) rfl

end Request

def Blank (v : Variable) (s : Store) : Prop := (s.cell v).All (· = .number 0)

theorem cell_of_scalars (hv : v.kind.isArray = false) (h : t.scalars = s.scalars) : t.cell v = s.cell v := by
  simp only [cell, hv, Bool.false_eq_true, if_false, h]

theorem Blank.of_cell (hs : s.Blank v) (hcell : t.cell v = s.cell v) : t.Blank v := by rwa [Blank, hcell]

/-- A change other than to write the scalar moves its zeros about at most. -/
theorem Change.blank (hv : v.kind.isArray = false) (hc : ∀ x, c ≠ .write v x) (hs : s.Blank v) :
    (s.run c.act).2.Blank v := by
  rcases (act_replaces c s).cell v with hcell | ⟨rfl, hturns⟩
  · exact hs.of_cell hcell
  · cases c with
    | write w x => exact absurd rfl (hc x)
    | writeElement w subscripts x => exact hs.of_cell (cell_of_scalars hv (scalars_writeElement s w subscripts x))
    | redimension w dimensions => exact hs.of_cell (cell_of_scalars hv (scalars_redimension s w dimensions))
    | stash w =>
      rw [Blank, hturns]
      exact ⟨hs.value, List.forall_mem_cons.mpr ⟨hs.value, hs.history⟩⟩
    | retrieve w =>
      obtain ⟨last, older, hhistory, hcell⟩ := hturns
      have hzeros := hs.history
      rw [hhistory, List.forall_mem_cons] at hzeros
      rw [Blank, hcell]
      refine ⟨?_, hzeros.2⟩
      dsimp only
      split
      · exact hs.value
      · exact hzeros.1
    | ignore w | remember w =>
      rw [Blank, hturns]
      exact ⟨hs.value, hs.history⟩

theorem blank_write_of_ignored {x : Word} (hs : s.Blank v ∧ (s.cell v).ignored = true) :
    (s.run (write w x)).2.Blank v ∧ ((s.run (write w x)).2.cell v).ignored = true := by
  rcases (write_replaces s w x).cell v with hcell | ⟨-, hignored, hhistory, hvalue⟩
  · exact ⟨hs.1.of_cell hcell, by rw [hcell]; exact hs.2⟩
  · refine ⟨⟨?_, ?_⟩, hignored.trans hs.2⟩
    · rw [hvalue hs.2]
      exact hs.1.value
    · rw [hhistory]
      exact hs.1.history

namespace Request

variable {r : Request}

theorem isOk_done (s : Store) (a : Action Unit) : (s.run (done a)).1.isOk = (s.run a).1.isOk := by
  rw [done, run_bind]
  rcases s.run a with ⟨_ | _, t⟩ <;> rfl

theorem aims_of_causes {x : Word} (h : r.Causes (.write v x)) : r.aims v = true := by
  cases r with
  | write w y =>
    cases h
    exact decide_eq_true rfl
  | writeIn w =>
    rcases h with ⟨y, h⟩ | ⟨subscripts, y, h⟩ <;> cases h
    exact decide_eq_true rfl
  | call routine =>
    obtain ⟨w, hw, y, h⟩ := h
    cases h
    exact decide_eq_true hw
  | _ => cases h

theorem causes_of_aims (h : r.aims v = true) (hc : r.Causes c) :
    (∃ w x, c = .write w x) ∨ ∃ w subscripts x, c = .writeElement w subscripts x := by
  cases r with
  | write w y => exact .inl ⟨w, y, hc⟩
  | writeIn w => exact hc.imp (⟨w, ·⟩) (⟨w, ·⟩)
  | call routine =>
    obtain ⟨w, -, y, rfl⟩ := hc
    exact .inl ⟨w, y, rfl⟩
  | _ => cases h

theorem cell_of_aims (hv : v.kind.isArray = false) (hs : s.Sound) (haims : r.aims v = true)
    (hfault : (s.run r.serve).1.isOk = false) : (s.run r.serve).2.cell v = s.cell v := by
  have hwrite (t : Store) (x : Word) (h : (t.run (Store.write v x)).1.isOk = false) :
      (t.run (Store.write v x)).2.cell v = t.cell v := by
    rcases run_write hv t x with ⟨u, hu, -⟩ | ⟨u, hu, -, -, hcell⟩
    · rw [hu] at h
      cases h
    · rw [hu]
      exact hcell
  cases r with
  | write w x =>
    obtain rfl : w = v := of_decide_eq_true haims
    rw [serve, isOk_done] at hfault
    rw [serve, run_done, hwrite s x hfault]
  | writeIn w =>
    obtain rfl : w = v := of_decide_eq_true haims
    rw [serve, isOk_done] at hfault
    rw [serve, run_done]
    rcases run_writeIn hv s with ⟨f, t, hrun, -, hscalars, -⟩ | ⟨x, t, hrun, hscalars, -⟩
    · rw [hrun, cell_of_scalars hv hscalars]
    · rw [hrun] at hfault ⊢
      rw [hwrite t x hfault, cell_of_scalars hv hscalars]
  | call routine =>
    rw [serve, isOk_done] at hfault
    rw [serve, run_done]
    rcases settles_call routine s hs with ⟨f, t, hrun, hscalars, -⟩ | ⟨t, hrun, -⟩
    · rw [hrun, cell_of_scalars hv hscalars]
    · rw [hrun] at hfault
      cases hfault
  | _ => cases haims

theorem blank_serve (hv : v.kind.isArray = false) (hs : s.Sound) (hr : r.writes v s = false) (hblank : s.Blank v) :
    (s.run r.serve).2.Blank v := by
  cases haims : r.aims v with
  | false =>
    have hdetached : Detached (Blank v) fun _ ↦ True := detached_cell v _
    refine (hdetached.request (fun _ ↦ trivial) fun c hc t ht ↦ ⟨c.blank hv ?_ ht, fun _ _ ↦ trivial⟩) s hblank |>.1
    rintro x rfl
    rw [aims_of_causes hc] at haims
    cases haims
  | true =>
    cases hignored : (s.cell v).ignored with
    | true =>
      have hdetached := detached_cell v fun c ↦ c.All (· = .number 0) ∧ c.ignored = true
      refine (hdetached.request (fun _ ↦ trivial) fun c hc t ht ↦ ⟨?_, fun _ _ ↦ trivial⟩) s ⟨hblank, hignored⟩ |>.1.1
      rcases causes_of_aims haims hc with ⟨w, x, rfl⟩ | ⟨w, subscripts, x, rfl⟩
      · exact blank_write_of_ignored ht
      · have hcell := cell_of_scalars hv (scalars_writeElement t w subscripts x)
        rwa [Change.act, hcell]
    | false =>
      rw [writes, haims, hignored, Bool.not_false, Bool.true_and, Bool.true_and] at hr
      exact hblank.of_cell (cell_of_aims hv hs haims hr)

end Request

def sometime (p : Store → Request → Bool) (s : Store) : List Request → Bool
  | [] => false
  | r :: rs => p s r || sometime p (s.run r.serve).2 rs

theorem known_session (hv : v.kind.isArray = false) (hs : s.Sound) (rs : List Request) :
    (serve s rs).2.Known v ↔ s.Known v ∨ sometime (Request.touches v) s rs = true := by
  induction rs generalizing s with
  | nil => exact (or_iff_left Bool.false_ne_true).symm
  | cons r rs ih =>
    have hnext := (steady_sound.request (fun _ ↦ trivial) r s hs).1
    rw [sometime, Bool.or_eq_true, ← or_assoc, ← Request.known_serve hv hs r]
    exact ih hnext

theorem blank_session (hv : v.kind.isArray = false) (hs : s.Sound) {rs : List Request}
    (hrs : sometime (Request.writes v) s rs = false) (hblank : s.Blank v) : (serve s rs).2.Blank v := by
  induction rs generalizing s with
  | nil => exact hblank
  | cons r rs ih =>
    have hnext := (steady_sound.request (fun _ ↦ trivial) r s hs).1
    rw [sometime, Bool.or_eq_false_iff] at hrs
    exact ih hnext hrs.2 (Request.blank_serve hv hs hrs.1 hblank)

/-- To read a scalar faults just as long as no request has touched it. If one has but none has written it, the scalar
is zero. -/
theorem unset_iff_untouched (hv : v.kind.isArray = false) (input : List UInt8) (source : Random.Source)
    (rs : List Request) :
    ((serve { input, source } rs).2.read v = .error (.unset v) ↔
      sometime (Request.touches v) { input, source } rs = false) ∧
    (sometime (Request.writes v) { input, source } rs = false →
      (serve { input, source } rs).2.read v =
        if sometime (Request.touches v) { input, source } rs then .ok 0 else .error (.unset v)) := by
  have hsound := sound_new input source
  have hnew : ¬ Known v { input, source } := Bool.false_ne_true
  have hblank : Blank v { input, source } := by
    rw [Blank, cell_of_not_known hv hnew]
    exact ⟨rfl, nofun⟩
  have hknown := known_session hv hsound rs
  rw [or_iff_right hnew] at hknown
  cases htouches : sometime (Request.touches v) { input, source } rs with
  | false =>
    have hunset := read_of_not_known hv (mt hknown.mp (by rw [htouches]; exact Bool.false_ne_true))
    exact ⟨iff_of_true hunset rfl, fun _ ↦ hunset⟩
  | true =>
    obtain ⟨x, hread, hvalue⟩ := read_of_known hv (hknown.mpr htouches)
    rw [hread]
    refine ⟨iff_of_false nofun nofun, fun hwrites ↦ ?_⟩
    have hzero := (blank_session hv hsound hwrites hblank).value
    rw [hvalue] at hzero
    cases hzero
    rfl

/-- Neither another scalar, nor to remember or to retrieve this one, nor a routine that faults makes it readable. -/
theorem unset_iff_untouched_remembered :
    (serve { input := [], source := ⟨0, 0⟩ } [.write (.spot 2) 5, .remember (.spot 1), .retrieve (.spot 1),
      .writeIn (.spot 1), .call 1020]).2.read (.spot 1) = .error (.unset (.spot 1)) :=
  (unset_iff_untouched rfl _ _ _).1.mpr rfl

/-- A scalar that was never written is readable after it was stashed, ignored, or written to in vain, whether because it
is ignored or because the number is too wide. -/
theorem readable_unwritten :
    ([[.stash (.spot 1)], [.ignore (.spot 1)], [.ignore (.spot 1), .write (.spot 1) 7],
      [.write (.spot 1) 70000]] : List (List Request)).map (fun rs ↦
        (sometime (Request.writes (.spot 1)) {} rs, (serve {} rs).2.read (.spot 1))) =
      List.replicate 4 (false, .ok 0) := rfl

end Store

end Intercal
