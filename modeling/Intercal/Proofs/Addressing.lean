import Intercal.Proofs.Cells
import Intercal.Proofs.Holdings
import Mathlib.Data.List.Forall2
import Mathlib.Data.Set.Function

namespace Intercal

namespace Grid

variable {ds is js : List Nat} {n reached : Nat}

def Within (dimensions subscripts : List Nat) : Prop :=
  List.Forall₂ (fun d i ↦ 1 ≤ i ∧ i ≤ d) dimensions subscripts

/-- The last subscript varies fastest: each one stands for as many elements as the dimensions behind its own have. -/
def rowMajor : List Nat → List Nat → Nat
  | _ :: ds, i :: is => (i - 1) * count ds + rowMajor ds is
  | _, _ => 0

def subscriptsAt : List Nat → Nat → List Nat
  | [], _ => []
  | _ :: ds, n => (n / count ds + 1) :: subscriptsAt ds (n % count ds)

theorem offsetFrom_of_within (h : Within ds is) (reached : Nat) :
    offsetFrom reached ds is = some (reached * count ds + rowMajor ds is) := by
  induction h generalizing reached with
  | nil => simp [offsetFrom, rowMajor, count]
  | @cons d i ds is hi _ ih =>
    have hsum : (reached * d + (i - 1)) * count ds + rowMajor ds is =
        reached * count (d :: ds) + rowMajor (d :: ds) (i :: is) := by
      rw [count_cons, rowMajor, Nat.add_mul, Nat.mul_assoc, Nat.add_assoc]
    rw [offsetFrom, if_pos hi, ih, hsum]

theorem within_of_offsetFrom (h : offsetFrom reached ds is = some n) : Within ds is := by
  induction ds generalizing reached is with
  | nil =>
    cases is with
    | nil => exact .nil
    | cons i is => cases h
  | cons d ds ih =>
    cases is with
    | nil => cases h
    | cons i is =>
      rw [offsetFrom] at h
      split at h
      · next hi => exact .cons hi (ih h)
      · cases h

theorem offset?_of_within (h : Within ds is) : offset? ds is = some (rowMajor ds is) := by
  rw [offset?, offsetFrom_of_within h, Nat.zero_mul, Nat.zero_add]

theorem offset?_of_not_within (h : ¬ Within ds is) : offset? ds is = none := by
  rw [Option.eq_none_iff_forall_ne_some]
  intro n hn
  exact h (within_of_offsetFrom hn)

theorem rowMajor_lt (h : Within ds is) : rowMajor ds is < count ds := offset?_lt (offset?_of_within h)

theorem subscriptsAt_rowMajor (h : Within ds is) : subscriptsAt ds (rowMajor ds is) = is := by
  induction h with
  | nil => rfl
  | @cons d i ds is hi htail ih =>
    have hlt := rowMajor_lt htail
    have hdiv : ((i - 1) * count ds + rowMajor ds is) / count ds = i - 1 := by
      rw [Nat.mul_comm, Nat.mul_add_div (Nat.zero_lt_of_lt hlt), Nat.div_eq_of_lt hlt, Nat.add_zero]
    have hmod : ((i - 1) * count ds + rowMajor ds is) % count ds = rowMajor ds is := by
      rw [Nat.mul_comm, Nat.mul_add_mod, Nat.mod_eq_of_lt hlt]
    rw [rowMajor, subscriptsAt, hdiv, hmod, ih, Nat.sub_add_cancel hi.1]

theorem within_subscriptsAt (h : n < count ds) : Within ds (subscriptsAt ds n) := by
  induction ds generalizing n with
  | nil => exact .nil
  | cons d ds ih =>
    rw [count_cons] at h
    have hpos : 0 < count ds := Nat.pos_of_mul_pos_left (Nat.zero_lt_of_lt h)
    have hdiv : n / count ds < d := (Nat.div_lt_iff_lt_mul hpos).mpr h
    exact .cons ⟨Nat.succ_pos _, hdiv⟩ (ih (Nat.mod_lt n hpos))

theorem rowMajor_subscriptsAt (h : n < count ds) : rowMajor ds (subscriptsAt ds n) = n := by
  induction ds generalizing n with
  | nil => exact (Nat.lt_one_iff.mp h).symm
  | cons d ds ih =>
    rw [count_cons] at h
    have hpos : 0 < count ds := Nat.pos_of_mul_pos_left (Nat.zero_lt_of_lt h)
    rw [subscriptsAt, rowMajor, Nat.add_sub_cancel, ih (Nat.mod_lt n hpos), Nat.mul_comm, Nat.div_add_mod]

theorem rowMajor_bijOn (ds : List Nat) : Set.BijOn (rowMajor ds) {is | Within ds is} {n | n < count ds} := by
  have hinverse : Set.InvOn (subscriptsAt ds) (rowMajor ds) {is | Within ds is} {n | n < count ds} :=
    ⟨fun is h ↦ subscriptsAt_rowMajor h, fun n h ↦ rowMajor_subscriptsAt h⟩
  apply hinverse.bijOn
  · intro is h
    exact rowMajor_lt h
  · intro n h
    exact within_subscriptsAt h

theorem offset?_injective (his : offset? ds is = some n) (hjs : offset? ds js = some n) : is = js := by
  have hwithin := within_of_offsetFrom his
  have hwithin' := within_of_offsetFrom hjs
  rw [offset?_of_within hwithin, Option.some.injEq] at his
  rw [offset?_of_within hwithin', Option.some.injEq] at hjs
  exact (rowMajor_bijOn ds).injOn hwithin hwithin' (his.trans hjs.symm)

/-- One more dimension multiplies the offset reached so far, and its subscript is added. -/
theorem offsetFrom_concat {start d i : Nat} (h : offsetFrom start ds is = some reached) (hi : 1 ≤ i ∧ i ≤ d) :
    offsetFrom start (ds ++ [d]) (is ++ [i]) = some (reached * d + (i - 1)) := by
  induction ds generalizing start is with
  | nil =>
    cases is with
    | nil =>
      cases h
      exact if_pos hi
    | cons j is => cases h
  | cons e ds ih =>
    cases is with
    | nil => cases h
    | cons j is =>
      rw [offsetFrom] at h
      split at h
      · next hj =>
        rw [List.cons_append, List.cons_append, offsetFrom, if_pos hj]
        exact ih h
      · cases h

/-- No offset on the way down the dimensions exceeds the number of elements. -/
theorem next_offset_lt {front back : List Nat} {d i : Nat} (hpositive : ∀ e ∈ back, 0 < e)
    (h : offset? front is = some reached) (hi : 1 ≤ i ∧ i ≤ d) :
    reached * d + (i - 1) < count (front ++ d :: back) := by
  have hrest : 0 < count back := count_pos hpositive
  calc reached * d + (i - 1) < reached * d + d := by omega
    _ = (reached + 1) * d := (Nat.succ_mul reached d).symm
    _ ≤ count front * d := Nat.mul_le_mul_right d (offset?_lt h)
    _ ≤ count front * d * count back := Nat.le_mul_of_pos_right _ hrest
    _ = count (front ++ d :: back) := by rw [count_append, count_cons, Nat.mul_assoc]

def set (g : Grid) (i : Nat) (x : Word) : Grid := { g with elements := g.elements.setIfInBounds i x }

theorem get?_set_self {g : Grid} (hg : g.Shaped) (h : offset? g.dimensions is = some n) (x : Word) :
    (g.set n x).get? is = some x := by
  have hn : n < g.elements.size := hg.size ▸ offset?_lt h
  simp [get?, set, h, hn]

theorem get?_set_of_ne {g : Grid} (h : offset? g.dimensions is = some n) (hne : js ≠ is) (x : Word) :
    (g.set n x).get? js = g.get? js := by
  simp only [get?, set]
  cases hjs : offset? g.dimensions js with
  | none => rfl
  | some m =>
    have hnm : n ≠ m := by
      rintro rfl
      exact hne (offset?_injective hjs h)
    exact Array.getElem?_setIfInBounds_ne hnm

end Grid

namespace Store

variable {s t : Store} {v w : Variable} {g : Grid}

theorem grid_eq_ok : s.grid v = .ok g ↔ ∃ c, s.arrays.get? v = some c ∧ c.value = some g := by
  unfold grid
  constructor
  · intro h
    split at h
    · next hget =>
      cases h
      exact ⟨_, hget, rfl⟩
    · cases h
  · rintro ⟨⟨_, ignored, history⟩, hget, rfl⟩
    rw [hget]

theorem readElement_of_grid (h : s.grid v = .ok g) (subscripts : List Nat) :
    s.readElement v subscripts = (g.get? subscripts).elim (.error (.hyperspace v)) .ok := by
  rw [readElement, h]
  simp only [bind, Except.bind]
  cases g.get? subscripts <;> rfl

/-- A number that fits goes to its place in the array, and nowhere else. -/
theorem run_writeElement {subscripts : List Nat} {x : Word} {i : Nat} (hv : v.kind.isArray = true)
    (hg : s.grid v = .ok g) (hignored : (s.cell v).ignored = false) (hx : v.Fits x)
    (hi : Grid.offset? g.dimensions subscripts = some i) :
    ∃ t, s.run (writeElement v subscripts x) = (.ok (), t) ∧ t.grid v = .ok (g.set i x) ∧
      ∀ w, w ≠ v → t.grid w = s.grid w := by
  obtain ⟨⟨_, ignored, history⟩, hget, rfl⟩ := grid_eq_ok.mp hg
  rw [cell, if_pos hv, Bank.cell_eq_of_get? _ hget] at hignored
  cases hignored
  refine ⟨{ s with arrays := s.arrays.insert v ⟨some (g.set i x), false, history⟩ }, ?_, ?_, fun w hw ↦ ?_⟩
  · simp only [run, writeElement, hget, Bool.false_eq_true, if_false, hi, exceeds_of_fits hx]
    rfl
  · exact grid_eq_ok.mpr ⟨_, Table.get?_insert_self _ _ _, rfl⟩
  · simp only [grid, Table.get?_insert_of_ne s.arrays hw.symm]

/-- Valid subscripts are numbered in row-major order from zero, all others are refused, and the offset fits 64 bits at
every dimension. So an element that is written can be read again, and every other element, of this array or of
another, reads as before. -/
theorem element_addressing :
    (∀ ds : List Nat, (∀ d ∈ ds, 0 < d) → Grid.count ds < 0x10000000000000000 →
      Set.BijOn (Grid.rowMajor ds) {is | Grid.Within ds is} {n | n < Grid.count ds} ∧
      (∀ is, Grid.Within ds is → Grid.offset? ds is = some (Grid.rowMajor ds is)) ∧
      (∀ is, ¬ Grid.Within ds is → Grid.offset? ds is = none) ∧
      ∀ (front back is : List Nat) (d i reached : Nat), ds = front ++ d :: back →
        Grid.offset? front is = some reached → 1 ≤ i ∧ i ≤ d →
        Grid.offset? (front ++ [d]) (is ++ [i]) = some (reached * d + (i - 1)) ∧
          reached * d + (i - 1) < 0x10000000000000000) ∧
    ∀ (s : Store) (v : Variable) (g : Grid) (is : List Nat) (x : Word), s.Reachable → v.kind.isArray = true →
      s.grid v = .ok g → (s.cell v).ignored = false → v.Fits x → Grid.Within g.dimensions is →
      ∃ t, s.run (writeElement v is x) = (.ok (), t) ∧ t.readElement v is = .ok x ∧
        ∀ w js, (w, js) ≠ (v, is) → t.readElement w js = s.readElement w js := by
  constructor
  · intro ds hpositive hcount
    refine ⟨Grid.rowMajor_bijOn ds, fun is ↦ Grid.offset?_of_within, fun is ↦ Grid.offset?_of_not_within, ?_⟩
    rintro front back is d i reached rfl hreached hi
    have hback : ∀ e ∈ back, 0 < e := fun e he ↦ hpositive e (by simp [he])
    exact ⟨Grid.offsetFrom_concat hreached hi, Nat.lt_trans (Grid.next_offset_lt hback hreached hi) hcount⟩
  · intro s v g is x hs hv hg hignored hx his
    have hoffset := Grid.offset?_of_within his
    obtain ⟨t, hrun, htv, htw⟩ := run_writeElement hv hg hignored hx hoffset
    refine ⟨t, hrun, ?_, fun w js hne ↦ ?_⟩
    · rw [readElement_of_grid htv, Grid.get?_set_self (hs.sound.grid hg).shaped hoffset]
      rfl
    · by_cases hw : w = v
      · subst hw
        have hjs : js ≠ is := fun h ↦ hne (by rw [h])
        rw [readElement_of_grid htv, readElement_of_grid hg, Grid.get?_set_of_ne hoffset hjs]
      · rw [readElement, readElement, htw w hw]

def cube : Store :=
  (serve {} [.redimension ⟨.tail, 1⟩ [2, 3, 2], .writeElement ⟨.tail, 1⟩ [1, 3, 2] 9]).2

theorem element_addressing_cube :
    Set.BijOn (Grid.rowMajor [2, 3, 2]) {is | Grid.Within [2, 3, 2] is} {n | n < 12} ∧
      Grid.offset? [2, 3, 2] [2, 1, 2] = some 7 ∧ Grid.offset? [2, 3, 2] [2, 4, 1] = none ∧
      cube.Reachable ∧ ∃ t, cube.run (writeElement ⟨.tail, 1⟩ [2, 1, 2] 65535) = (.ok (), t) ∧
        t.readElement ⟨.tail, 1⟩ [2, 1, 2] = .ok 65535 ∧ t.readElement ⟨.tail, 1⟩ [1, 3, 2] = .ok 9 := by
  have hvalid : Grid.Within [2, 3, 2] [2, 1, 2] := .cons (by decide) (.cons (by decide) (.cons (by decide) .nil))
  have hinvalid : ¬ Grid.Within [2, 3, 2] [2, 4, 1] := by
    rintro (_ | ⟨-, _ | ⟨h, -⟩⟩)
    exact absurd h.2 (by decide)
  have hreachable : cube.Reachable := ⟨[], ⟨0, 0⟩, _, rfl⟩
  obtain ⟨hnumbers, hstore⟩ := element_addressing
  obtain ⟨hbij, hsome, hnone, -⟩ := hnumbers [2, 3, 2] (by decide) (by decide)
  obtain ⟨t, hrun, hread, hothers⟩ :=
    hstore cube ⟨.tail, 1⟩ _ [2, 1, 2] 65535 hreachable rfl rfl rfl (fun _ ↦ by decide) hvalid
  refine ⟨hbij, hsome _ hvalid, hnone _ hinvalid, hreachable, t, hrun, hread, ?_⟩
  rw [hothers _ _ (by decide)]
  rfl

end Store

end Intercal
