import Intercal.Proofs.Cells
import Intercal.Proofs.Holdings

namespace Intercal

namespace Random.Source

theorem draw_lt {bound : Nat} (hbound : 0 < bound) (zone n : Nat) (s : Source) : (draw bound zone n s).1 < bound := by
  induction n generalizing s with
  | zero => exact hbound
  | succ n ih =>
    unfold draw
    dsimp only
    split
    · have hword : s.word.toNat < 0x100000000 := s.word.toNat_lt
      exact Nat.div_lt_of_lt_mul (Nat.mul_lt_mul_of_pos_right hword hbound)
    · exact ih s.advance

theorem below_lt {bound : Nat} (hbound : 0 < bound) (s : Source) : (below bound s).1 < bound :=
  draw_lt hbound _ period s

end Random.Source

namespace SystemLibrary

theorem narrow_le {value : Option Word} {x : Word} (h : narrow value = some x) : x.toNat ≤ 65535 := by
  obtain ⟨-, hx⟩ := Option.filter_eq_some_iff.mp h
  exact BitVec.le_def.mp (of_decide_eq_true hx)

theorem toNat_low (x : Word) : (low x).toNat = x.toNat % 65536 := by
  rw [low, BitVec.toNat_and]
  exact Nat.and_two_pow_sub_one_eq_mod x.toNat 16

theorem low_le (x : Word) : (low x).toNat ≤ 65535 := by
  rw [toNat_low]
  omega

theorem toNat_widen (x : BitVec 16) : (x.setWidth 32).toNat = x.toNat := BitVec.toNat_setWidth_of_le (by decide)

theorem widen_le (x : BitVec 16) : (x.setWidth 32).toNat ≤ 65535 := by
  rw [toNat_widen]
  exact Nat.le_of_lt_succ x.isLt

end SystemLibrary

namespace Store

open SystemLibrary

variable {v w : Variable} {vs : List Variable} {α : Type}

def Looks (Q : α → Prop) (a : Action α) : Prop :=
  ∀ s : Store, s.Sound →
    (s.run a).2.scalars = s.scalars ∧ (s.run a).2.arrays = s.arrays ∧ ∀ x, (s.run a).1 = .ok x → Q x

/-- The action makes cells for all of the variables, or it faults and no cell of a sound store has changed. -/
def Settles (vs : List Variable) (a : Action Unit) : Prop :=
  ∀ s : Store, s.Sound →
    (∃ f t, s.run a = (.error f, t) ∧ t.scalars = s.scalars ∧ t.arrays = s.arrays) ∨
      ∃ t, s.run a = (.ok (), t) ∧ ∀ v ∈ vs, t.Known v

theorem Looks.bind {Q : α → Prop} {a : Action α} {f : α → Action Unit} (ha : Looks Q a)
    (hf : ∀ x, Q x → Settles vs (f x)) : Settles vs (a >>= f) := by
  intro s hs
  obtain ⟨hscalars, harrays, hseen⟩ := ha s hs
  rw [run_bind]
  generalize s.run a = r at hscalars harrays hseen ⊢
  obtain ⟨e | x, t⟩ := r
  · exact .inl ⟨e, t, rfl, hscalars, harrays⟩
  · rcases hf x (hseen x rfl) t (steady_sound.streams hscalars harrays hs) with ⟨f, u, hu, hus, hua⟩ | hu
    · exact .inl ⟨f, u, hu, hus.trans hscalars, hua.trans harrays⟩
    · exact .inr hu

theorem looks_spot (n : Nat) : Looks (fun x : Word ↦ x.toNat ≤ 65535) (spot n) := by
  refine fun s hs ↦ ⟨rfl, rfl, fun x hx ↦ ?_⟩
  have hread : s.read (.spot n) = .ok x := hx
  exact hs.read_fits hread rfl

theorem looks_twoSpot (n : Nat) : Looks (fun _ ↦ True) (twoSpot n) := fun _ _ ↦ ⟨rfl, rfl, fun _ _ ↦ trivial⟩

theorem looks_fitting {value : Option Word} {Q : Word → Prop} (h : ∀ x, value = some x → Q x) (routine : Nat) :
    Looks Q (fitting routine value) := by
  intro s _
  cases value with
  | some x =>
    refine ⟨rfl, rfl, fun y hy ↦ ?_⟩
    cases hy
    exact h x rfl
  | none => exact ⟨rfl, rfl, nofun⟩

theorem random_lt {bound : Nat} (hbound : 0 < bound) (s : Store) : (s.random bound).1.toNat < bound := by
  have hbelow := s.source.below_lt hbound
  rw [random, if_neg (Nat.ne_of_gt hbound), BitVec.toNat_ofNat]
  exact Nat.lt_of_le_of_lt (Nat.mod_le _ _) hbelow

theorem looks_draw {bound : Nat} (hbound : 0 < bound) :
    Looks (fun x : Word ↦ x.toNat < bound) (fun s ↦ let (x, s) := s.random bound; (.ok x, s)) := by
  refine fun s _ ↦ ⟨(random_banks bound s).1, (random_banks bound s).2, fun x hx ↦ ?_⟩
  cases hx
  exact random_lt hbound s

/-- A scalar is known once it was written to, also if the number is rejected; and then its cell is as it was. -/
theorem run_write (hv : v.kind.isArray = false) (s : Store) (x : Word) :
    (∃ t, s.run (write v x) = (.ok (), t) ∧ t.Known v) ∨
      ∃ t, s.run (write v x) = (.error (.tooWide v x), t) ∧ exceeds v x = true ∧ t.Known v ∧ t.cell v = s.cell v := by
  simp only [run, write, hv, Bool.false_eq_true, if_false]
  split
  · exact .inl ⟨_, rfl, known_insert s _ v _⟩
  · split
    · next hexceeds =>
      refine .inr ⟨_, rfl, hexceeds, known_insert s _ v _, ?_⟩
      simp only [cell, hv, Bool.false_eq_true, if_false, Bank.touch, Bank.cell_insert_self]
    · exact .inl ⟨_, rfl, known_insert s _ v _⟩

theorem run_write_of_fits (hv : v.kind.isArray = false) {x : Word} (hx : v.Fits x) (s : Store) :
    ∃ t, s.run (write v x) = (.ok (), t) ∧ t.Known v := by
  rcases run_write hv s x with hok | ⟨t, -, hexceeds, -⟩
  · exact hok
  · simp only [exceeds, Bool.and_eq_true, decide_eq_true_eq] at hexceeds
    have hle := hx hexceeds.1
    omega

theorem settles_write (hv : v.kind.isArray = false) {x : Word} (hx : v.Fits x) : Settles [v] (write v x) := by
  intro s _
  obtain ⟨t, ht, hknown⟩ := run_write_of_fits hv hx s
  refine .inr ⟨t, ht, fun w hw ↦ ?_⟩
  rwa [List.mem_singleton.mp hw]

theorem settles_write_write (hv : v.kind.isArray = false) (hw : w.kind.isArray = false) {x y : Word} (hx : v.Fits x)
    (hy : w.Fits y) : Settles [v, w] (write v x >>= fun _ ↦ write w y) := by
  intro s _
  obtain ⟨t, ht, htv⟩ := run_write_of_fits hv hx s
  obtain ⟨u, hu, huw⟩ := run_write_of_fits hw hy t
  have huv := ((steady_known v).write w y t htv).1
  rw [hu] at huv
  refine .inr ⟨u, by rw [run_bind, ht]; exact hu, fun z hz ↦ ?_⟩
  rcases List.mem_cons.mp hz with rfl | hz
  · exact huv
  · rwa [List.mem_singleton.mp hz]

theorem fits_twoSpot (n : Nat) (x : Word) : (Variable.twoSpot n).Fits x := nofun

theorem settles_setSpot (n : Nat) {x : Word} (hx : x.toNat ≤ 65535) : Settles [.spot n] (setSpot n x) :=
  settles_write rfl fun _ ↦ hx

theorem settles_setTwoSpot (n : Nat) (x : Word) : Settles [.twoSpot n] (setTwoSpot n x) :=
  settles_write rfl (fits_twoSpot n x)

theorem settles_flagged_setSpot (value : Option Word) (x : Word) :
    Settles [.spot 3, .spot 4] (flagged setSpot (narrow value) (low x)) := by
  refine settles_write_write rfl rfl (fun _ ↦ ?_) fun _ ↦ ?_
  · cases hvalue : narrow value with
    | some y => exact narrow_le hvalue
    | none => exact low_le x
  · split <;> decide

theorem settles_flagged_setTwoSpot (value : Option Word) (x : Word) :
    Settles [.twoSpot 3, .twoSpot 4] (flagged setTwoSpot value x) :=
  settles_write_write rfl rfl (fits_twoSpot 3 _) (fits_twoSpot 4 _)

theorem settles_fitting_setSpot (routine n : Nat) (value : Option Word) :
    Settles [.spot n] (fitting routine (narrow value) >>= fun x ↦ setSpot n x) :=
  (looks_fitting (fun _ ↦ narrow_le) routine).bind fun _ hx ↦ settles_setSpot n hx

theorem settles_fitting_setTwoSpot (routine n : Nat) (value : Option Word) :
    Settles [.twoSpot n] (fitting routine value >>= fun x ↦ setTwoSpot n x) :=
  (looks_fitting (fun _ _ ↦ trivial) routine).bind fun x (_ : True) ↦ settles_setTwoSpot n x

theorem settles_spots {f : Word → Word → Action Unit} (hf : ∀ x : Word, x.toNat ≤ 65535 → ∀ y, Settles vs (f x y)) :
    Settles vs (spot 1 >>= fun x ↦ spot 2 >>= fun y ↦ f x y) :=
  (looks_spot 1).bind fun x hx ↦ (looks_spot 2).bind fun y _ ↦ hf x hx y

theorem settles_twoSpots {f : Word → Word → Action Unit} (hf : ∀ x y, Settles vs (f x y)) :
    Settles vs (twoSpot 1 >>= fun x ↦ twoSpot 2 >>= fun y ↦ f x y) :=
  (looks_twoSpot 1).bind fun x _ ↦ (looks_twoSpot 2).bind fun y _ ↦ hf x y

/-- A routine that faults has changed nothing, and one that does not has made cells for all its results. -/
theorem settles_call (routine : Nat) : Settles (results routine) (call routine) := by
  unfold call
  split
  · exact settles_spots fun _ _ _ ↦ settles_fitting_setSpot _ 3 _
  · exact settles_spots fun _ _ _ ↦ settles_flagged_setSpot _ _
  · exact settles_spots fun _ _ _ ↦ settles_setSpot 3 (widen_le _)
  · exact (looks_spot 1).bind fun _ _ ↦ settles_setSpot 1 (widen_le _)
  · exact settles_spots fun _ _ _ ↦ settles_fitting_setSpot _ 3 _
  · exact settles_spots fun _ _ _ ↦ settles_flagged_setSpot _ _
  · refine settles_spots fun x hx y ↦ settles_setSpot 3 ?_
    rw [BitVec.toNat_udiv]
    exact Nat.le_trans (Nat.div_le_self _ _) hx
  · exact (looks_twoSpot 1).bind fun _ _ ↦ (looks_spot 1).bind fun _ _ ↦ settles_fitting_setSpot _ 2 _
  · exact settles_twoSpots fun _ _ ↦ settles_fitting_setTwoSpot _ 3 _
  · exact settles_twoSpots fun _ _ ↦ settles_flagged_setTwoSpot _ _
  · exact settles_twoSpots fun _ _ ↦ settles_setTwoSpot 3 _
  · exact settles_spots fun _ _ _ ↦ settles_setTwoSpot 1 _
  · exact settles_spots fun _ _ _ ↦ settles_setTwoSpot 1 _
  · exact settles_twoSpots fun _ _ ↦ settles_fitting_setTwoSpot _ 3 _
  · exact settles_twoSpots fun _ _ ↦ settles_flagged_setTwoSpot _ _
  · exact settles_twoSpots fun _ _ ↦ settles_setTwoSpot 3 _
  · generalize hbound : short = bound
    refine (looks_draw (by rw [← hbound]; decide)).bind fun x hx ↦ settles_write rfl fun _ ↦ ?_
    rw [← hbound] at hx
    exact Nat.le_of_lt_succ hx
  · exact fun s _ ↦ .inl ⟨_, s, rfl, rfl, rfl⟩

end Store

end Intercal
