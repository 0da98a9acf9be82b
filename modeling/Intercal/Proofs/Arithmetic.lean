import Intercal.Proofs.Routines

namespace Intercal

def Variable.greatest (v : Variable) : Nat := if v.kind.isShort then 65535 else 4294967295

theorem toNat_le (z : Word) : z.toNat ≤ 4294967295 := Nat.le_of_lt_succ z.isLt

namespace SystemLibrary

def operands : Nat → List Variable
  | 1000 | 1009 | 1010 | 1030 | 1039 | 1040 | 1520 | 1530 => [.spot 1, .spot 2]
  | 1020 => [.spot 1]
  | 1050 => [.twoSpot 1, .spot 1]
  | 1500 | 1509 | 1510 | 1540 | 1549 | 1550 => [.twoSpot 1, .twoSpot 2]
  | _ => []

def checked (v : Variable) (x : Nat) : Option (List (Variable × Nat)) := if x ≤ v.greatest then some [(v, x)] else none

/-- A result as far as there is room for it, and whether there is. -/
def reported (v flag : Variable) (x : Nat) : Option (List (Variable × Nat)) :=
  some [(v, x % (v.greatest + 1)), (flag, if x ≤ v.greatest then 1 else 2)]

def quotient (x y : Nat) : Nat := if y = 0 then 0 else x / y

/-- The variables that a routine sets for the given operands, with their new numbers, or nothing if there is an
overflow. -/
def outcome (drawn : Nat) : Nat → List Nat → Option (List (Variable × Nat))
  | 1000, [a, b] => checked (.spot 3) (a + b)
  | 1009, [a, b] => reported (.spot 3) (.spot 4) (a + b)
  | 1010, [a, b] => some [(.spot 3, (((a : Int) - b) % 65536).toNat)]
  | 1020, [a] => some [(.spot 1, (a + 1) % 65536)]
  | 1030, [a, b] => checked (.spot 3) (a * b)
  | 1039, [a, b] => reported (.spot 3) (.spot 4) (a * b)
  | 1040, [a, b] => some [(.spot 3, quotient a b)]
  | 1050, [x, a] => checked (.spot 2) (quotient x a)
  | 1500, [x, y] => checked (.twoSpot 3) (x + y)
  | 1509, [x, y] => reported (.twoSpot 3) (.twoSpot 4) (x + y)
  | 1510, [x, y] => some [(.twoSpot 3, (((x : Int) - y) % 4294967296).toNat)]
  | 1520, [a, b] => some [(.twoSpot 1, a * 65536 + b)]
  | 1530, [a, b] => some [(.twoSpot 1, a * b)]
  | 1540, [x, y] => checked (.twoSpot 3) (x * y)
  | 1549, [x, y] => reported (.twoSpot 3) (.twoSpot 4) (x * y)
  | 1550, [x, y] => some [(.twoSpot 3, quotient x y)]
  | 1900, [] => some [(.spot 1, drawn)]
  | _, _ => none

theorem toNat_div (x y : Word) : (x / y).toNat = quotient x.toNat y.toNat := by
  rw [BitVec.toNat_udiv, quotient]
  split
  · next hy => rw [hy, Nat.div_zero]
  · rfl

theorem toNat_difference (x y : Word) :
    ((x.setWidth 16 - y.setWidth 16).setWidth 32).toNat = (((x.toNat : Int) - y.toNat) % 65536).toNat := by
  rw [toNat_widen, BitVec.toNat_sub, BitVec.toNat_setWidth, BitVec.toNat_setWidth]
  omega

theorem toNat_increment (x : Word) : ((x.setWidth 16 + 1#16).setWidth 32).toNat = (x.toNat + 1) % 65536 := by
  rw [toNat_widen, BitVec.toNat_add, BitVec.toNat_setWidth, Nat.mod_add_mod]
  rfl

/-- The word of a number up to the bound, and nothing for a greater number. -/
inductive Exact (bound : Nat) : Option Word → Nat → Prop
  | fits {z : Word} {x : Nat} (number : z.toNat = x) (le : x ≤ bound) : Exact bound (some z) x
  | overflows {x : Nat} (lt : bound < x) : Exact bound none x

namespace Exact

variable {value : Option Word} {x bound : Nat}

theorem word {z : Word} (h : z.toNat = x) : Exact 4294967295 (some z) x :=
  .fits h (h ▸ toNat_le z)

theorem of_overflow {z : Word} (h : x < 4294967296 → z.toNat = x) :
    Exact 4294967295 (if decide (4294967296 ≤ x) then none else some z) x := by
  by_cases hx : 4294967296 ≤ x
  · rw [if_pos (decide_eq_true hx)]
    exact .overflows hx
  · rw [if_neg fun h ↦ hx (of_decide_eq_true h)]
    exact .word (h (Nat.lt_of_not_le hx))

theorem checkedAdd (x y : Word) : Exact 4294967295 (checkedAdd x y) (x.toNat + y.toNat) :=
  of_overflow BitVec.toNat_add_of_lt

theorem checkedMul (x y : Word) : Exact 4294967295 (checkedMul x y) (x.toNat * y.toNat) :=
  of_overflow BitVec.toNat_mul_of_lt

theorem narrow (h : Exact 4294967295 value x) : Exact 65535 (narrow value) x := by
  cases h with
  | overflows hlt => exact .overflows (Nat.lt_trans (by decide) hlt)
  | @fits z _ hz _ =>
    by_cases hle : z ≤ 65535#32
    · have hnarrow : SystemLibrary.narrow (some z) = some z := by simp [SystemLibrary.narrow, hle]
      rw [hnarrow]
      exact .fits hz (hz ▸ BitVec.le_def.mp hle)
    · have hlt : 65535#32 < z := BitVec.not_le.mp hle
      have hnarrow : SystemLibrary.narrow (some z) = none := by simp [SystemLibrary.narrow, hlt]
      rw [hnarrow]
      exact .overflows (hz ▸ BitVec.lt_def.mp hlt)

theorem toNat_getD (h : Exact bound value x) {wrapped : Word} (hwrapped : wrapped.toNat = x % (bound + 1)) :
    (value.getD wrapped).toNat = x % (bound + 1) := by
  cases h with
  | fits hz hle => exact hz.trans (Nat.mod_eq_of_lt (Nat.lt_succ_of_le hle)).symm
  | overflows => exact hwrapped

theorem toNat_flag (h : Exact bound value x) :
    (if value.isSome then 1#32 else 2#32).toNat = if x ≤ bound then 1 else 2 := by
  cases h with
  | fits _ hle => rw [if_pos hle]; rfl
  | overflows hlt => rw [if_neg (Nat.not_le_of_lt hlt)]; rfl

end Exact

end SystemLibrary

namespace Store

open SystemLibrary

variable {s t u : Store} {v w : Variable} {vs : List Variable} {routine x y : Nat} {z : Word}

theorem fits_of_le (hz : z.toNat ≤ v.greatest) : v.Fits z := by
  intro hshort
  rwa [Variable.greatest, if_pos hshort] at hz

theorem Sound.read_le (hs : s.Sound) (h : s.read v = .ok z) : z.toNat ≤ v.greatest := by
  unfold Variable.greatest
  split
  · next hshort => exact hs.read_fits h hshort
  · exact toNat_le z

/-- The variables have the given numbers now, and nothing else has changed in any variable. -/
structure Sets (changes : List (Variable × Nat)) (s t : Store) : Prop where
  numbers {v : Variable} {x : Nat} : (v, x) ∈ changes → (t.read v).map BitVec.toNat = .ok x ∧
    (t.cell v).ignored = (s.cell v).ignored ∧ (t.cell v).history = (s.cell v).history
  others {v : Variable} : v ∉ changes.map Prod.fst → t.scalars.get? v = s.scalars.get? v
  arrays : t.arrays = s.arrays

theorem Sets.cell {changes : List (Variable × Nat)} (h : Sets changes s t) (hv : v ∉ changes.map Prod.fst) :
    t.cell v = s.cell v := by
  simp only [Store.cell, Bank.cell, h.others hv, h.arrays]

theorem Sets.pair (hvw : v ≠ w) (ht : Sets [(v, x)] s t) (hu : Sets [(w, y)] t u) : Sets [(v, x), (w, y)] s u where
  numbers {v' x'} h := by
    have hv : v ∉ [(w, y)].map Prod.fst := fun h ↦ hvw (List.mem_singleton.mp h)
    have hw : w ∉ [(v, x)].map Prod.fst := fun h ↦ hvw (List.mem_singleton.mp h).symm
    rcases List.mem_cons.mp h with h | h
    · cases h
      have hread : u.read v = t.read v := by simp only [read, hu.others hv]
      rw [hread, hu.cell hv]
      exact ht.numbers List.mem_cons_self
    · cases List.mem_singleton.mp h
      rw [← ht.cell hw]
      exact hu.numbers List.mem_cons_self
  others {v'} h := by
    simp only [List.map_cons, List.map_nil, List.mem_cons, List.not_mem_nil, or_false, not_or] at h
    have hu' := hu.others (v := v') (by simpa using h.2)
    exact hu'.trans (ht.others (by simpa using h.1))
  arrays := hu.arrays.trans ht.arrays

def Ends (routine : Nat) (s : Store) : Option (List (Variable × Nat)) → Except Fault Unit × Store → Prop
  | none, r => r = (.error (.overflow routine), s)
  | some changes, r => ∃ t, r = (.ok (), t) ∧ Sets changes s t

theorem run_write_open (hv : v.kind.isArray = false) (hopen : (s.cell v).ignored = false) (hz : z.toNat ≤ v.greatest) :
    ∃ t, s.run (write v z) = (.ok (), t) ∧ Sets [(v, z.toNat)] s t := by
  rw [cell, hv, if_neg Bool.false_ne_true] at hopen
  have hignored : (s.scalars.cell v).ignored = false := hopen
  have hexceeds : exceeds v z = false := exceeds_of_fits (fits_of_le hz)
  refine ⟨{ s with scalars := s.scalars.insert v { s.scalars.cell v with value := z } }, ?_, ?_, ?_, rfl⟩
  · simp only [run, write, hv, Bool.false_eq_true, if_false, hignored, hexceeds, Bank.insert_touch]
  · intro v' x' h
    cases List.mem_singleton.mp h
    simp only [read, cell, hv, Bool.false_eq_true, if_false, Table.get?_insert_self, Bank.cell_insert_self]
    exact ⟨rfl, rfl, rfl⟩
  · intro v' h
    exact Table.get?_insert_of_ne s.scalars (fun hv' ↦ h (List.mem_singleton.mpr hv'.symm)) _

theorem ends_write (hv : v.kind.isArray = false) (hopen : (s.cell v).ignored = false) (hz : z.toNat = x)
    (hx : x ≤ v.greatest) : Ends routine s (some [(v, x)]) (s.run (write v z)) := by
  subst hz
  exact run_write_open hv hopen hx

theorem ends_quotient (hv : v.kind.isArray = false) (hopen : (s.cell v).ignored = false) {x : Word}
    (hx : x.toNat ≤ v.greatest) (y : Word) :
    Ends routine s (some [(v, quotient x.toNat y.toNat)]) (s.run (write v (x / y))) := by
  refine ends_write hv hopen (toNat_div x y) ?_
  rw [← toNat_div, BitVec.toNat_udiv]
  exact Nat.le_trans (Nat.div_le_self _ _) hx

theorem ends_checked (hv : v.kind.isArray = false) (hopen : (s.cell v).ignored = false) {value : Option Word}
    (h : Exact v.greatest value x) :
    Ends routine s (checked v x) (s.run (fitting routine value >>= fun z ↦ write v z)) := by
  unfold checked
  rw [run_bind]
  cases h with
  | fits hz hle =>
    rw [if_pos hle]
    exact ends_write hv hopen hz hle
  | overflows hlt =>
    rw [if_neg (Nat.not_le_of_lt hlt)]
    rfl

theorem ends_reported (hvw : v ≠ w) (hv : v.kind.isArray = false) (hw : w.kind.isArray = false)
    (hopen : (s.cell v).ignored = false) (hopen' : (s.cell w).ignored = false) {value : Option Word} {wrapped : Word}
    {modulus : Nat} (hmodulus : modulus = v.greatest + 1) (h : Exact v.greatest value x)
    (hwrapped : wrapped.toNat = x % modulus) :
    Ends routine s (reported v w x) (s.run (write v (value.getD wrapped) >>= fun _ ↦
      write w (if value.isSome then 1#32 else 2#32))) := by
  subst hmodulus
  have hresult : (value.getD wrapped).toNat ≤ v.greatest := by
    rw [h.toNat_getD hwrapped]
    exact Nat.le_of_lt_succ (Nat.mod_lt x (Nat.succ_pos v.greatest))
  have hflag : (if value.isSome then 1#32 else 2#32).toNat ≤ w.greatest := by
    have htwo : 2 ≤ w.greatest := by
      unfold Variable.greatest
      split <;> decide
    rw [h.toNat_flag]
    split <;> omega
  obtain ⟨t, ht, hsets⟩ := run_write_open hv hopen hresult
  have hcell := hsets.cell (v := w) (fun h ↦ hvw (List.mem_singleton.mp h).symm)
  obtain ⟨u, hu, hsets'⟩ := run_write_open hw (hcell ▸ hopen') hflag
  rw [h.toNat_getD hwrapped] at hsets
  rw [h.toNat_flag] at hsets'
  exact ⟨u, by rw [run_bind, ht]; exact hu, hsets.pair hvw hsets'⟩

/-- The action looks at the variables in order. The first of them that has no number is the fault; otherwise the action
ends as the outcome for their numbers says. -/
structure Computes (routine : Nat) (s : Store) (vs : List Variable)
    (outcome : List Nat → Option (List (Variable × Nat))) (a : Action Unit) : Prop where
  unset {v : Variable} : vs.find? (fun v ↦ !(s.read v).isOk) = some v → s.run a = (.error (.unset v), s)
  ends {xs : List Word} : vs.map s.read = xs.map .ok → Ends routine s (outcome (xs.map BitVec.toNat)) (s.run a)

namespace Computes

variable {rule : List Nat → Option (List (Variable × Nat))} {a : Action Unit} {f : Word → Action Unit}

theorem done (h : Ends routine s (rule []) (s.run a)) : Computes routine s [] rule a where
  unset h := nomatch h
  ends {xs} hxs := by
    cases xs with
    | nil => exact h
    | cons x xs => cases hxs

theorem operand (hv : v.kind.isArray = false)
    (h : ∀ x : Word, s.read v = .ok x → Computes routine s vs (fun xs ↦ rule (x.toNat :: xs)) (f x)) :
    Computes routine s (v :: vs) rule (Request.ask (fun s ↦ s.read v) >>= f) := by
  by_cases hknown : s.Known v
  · obtain ⟨x, hx, -⟩ := read_of_known hv hknown
    have hnext : s.run (Request.ask (fun s ↦ s.read v) >>= f) = s.run (f x) := run_ask_ok hx f
    refine ⟨fun hfind ↦ ?_, fun {xs} hxs ↦ ?_⟩
    · rw [List.find?_cons_of_neg (by rw [hx]; exact Bool.false_ne_true)] at hfind
      rw [hnext]
      exact (h x hx).unset hfind
    · cases xs with
      | nil => cases hxs
      | cons y ys =>
        rw [List.map_cons, List.map_cons, hx, List.cons.injEq, Except.ok.injEq] at hxs
        obtain ⟨rfl, hys⟩ := hxs
        rw [hnext]
        exact (h x hx).ends hys
  · have hunset := read_of_not_known hv hknown
    refine ⟨fun hfind ↦ ?_, fun {xs} hxs ↦ ?_⟩
    · rw [List.find?_cons_of_pos (by rw [hunset]; rfl)] at hfind
      cases hfind
      exact run_ask_error hunset f
    · cases xs with
      | nil => cases hxs
      | cons y ys =>
        rw [List.map_cons, List.map_cons, hunset] at hxs
        cases hxs

theorem pair (hs : s.Sound) (hv : v.kind.isArray = false) (hw : w.kind.isArray = false) {f : Word → Word → Action Unit}
    (h : ∀ x y : Word, x.toNat ≤ v.greatest → y.toNat ≤ w.greatest →
      Ends routine s (rule [x.toNat, y.toNat]) (s.run (f x y))) :
    Computes routine s [v, w] rule
      (Request.ask (fun s ↦ s.read v) >>= fun x ↦ Request.ask (fun s ↦ s.read w) >>= fun y ↦ f x y) :=
  .operand hv fun x hx ↦ .operand hw fun y hy ↦ .done (h x y (hs.read_le hx) (hs.read_le hy))

theorem spots (hs : s.Sound) {f : Word → Word → Action Unit}
    (h : ∀ x y : Word, x.toNat ≤ 65535 → y.toNat ≤ 65535 → Ends routine s (rule [x.toNat, y.toNat]) (s.run (f x y))) :
    Computes routine s [.spot 1, .spot 2] rule (spot 1 >>= fun x ↦ spot 2 >>= fun y ↦ f x y) :=
  .pair hs rfl rfl h

theorem twoSpots (hs : s.Sound) {f : Word → Word → Action Unit}
    (h : ∀ x y : Word, Ends routine s (rule [x.toNat, y.toNat]) (s.run (f x y))) :
    Computes routine s [.twoSpot 1, .twoSpot 2] rule (twoSpot 1 >>= fun x ↦ twoSpot 2 >>= fun y ↦ f x y) :=
  .pair hs rfl rfl fun x y _ _ ↦ h x y

end Computes

theorem Sets.of_banks {changes : List (Variable × Nat)} (h : Sets changes t u) (hscalars : t.scalars = s.scalars)
    (harrays : t.arrays = s.arrays) : Sets changes s u where
  numbers {v x} hv := by
    rw [← cell_of_banks hscalars harrays v]
    exact h.numbers hv
  others {v} hv := hscalars ▸ h.others hv
  arrays := h.arrays.trans harrays

theorem ends_draw {bound : Nat} (hpos : 0 < bound) (hbound : bound ≤ 65536)
    (hopen : (s.cell (.spot 1)).ignored = false) :
    Ends routine s (some [(.spot 1, (s.random bound).1.toNat)])
      (s.run ((fun s ↦ let (x, s) := s.random bound; (.ok x, s) : Action Word) >>= fun x ↦ write (.spot 1) x)) := by
  have hbelow : (s.random bound).1.toNat ≤ 65535 :=
    Nat.le_of_lt_succ (Nat.lt_of_lt_of_le (random_lt hpos s) hbound)
  obtain ⟨hscalars, harrays⟩ := random_banks bound s
  generalize hrandom : s.random bound = r at hbelow hscalars harrays
  obtain ⟨x, t⟩ := r
  rw [← cell_of_banks hscalars harrays] at hopen
  obtain ⟨u, hu, hsets⟩ := run_write_open (v := .spot 1) rfl hopen hbelow
  refine ⟨u, ?_, hsets.of_banks hscalars harrays⟩
  rw [run_bind]
  simp only [run] at hu ⊢
  rw [hrandom]
  exact hu

theorem ends_setSpot {n : Nat} (hopen : (s.cell (.spot n)).ignored = false) (hz : z.toNat = x) (hx : x ≤ 65535) :
    Ends routine s (some [(.spot n, x)]) (s.run (setSpot n z)) :=
  ends_write rfl hopen hz hx

theorem ends_setTwoSpot {n : Nat} (hopen : (s.cell (.twoSpot n)).ignored = false) (hz : z.toNat = x) :
    Ends routine s (some [(.twoSpot n, x)]) (s.run (setTwoSpot n z)) :=
  ends_write rfl hopen hz (hz ▸ toNat_le z)

theorem ends_flagged_setSpot {value : Option Word} (hopen : (s.cell (.spot 3)).ignored = false)
    (hopen' : (s.cell (.spot 4)).ignored = false) (h : Exact 4294967295 value x) (hz : z.toNat = x) :
    Ends routine s (reported (.spot 3) (.spot 4) x) (s.run (flagged setSpot (narrow value) (low z))) :=
  ends_reported (by decide) rfl rfl hopen hopen' rfl h.narrow (hz ▸ toNat_low z)

theorem ends_flagged_setTwoSpot {value : Option Word} (hopen : (s.cell (.twoSpot 3)).ignored = false)
    (hopen' : (s.cell (.twoSpot 4)).ignored = false) (h : Exact 4294967295 value x)
    (hz : z.toNat = x % 4294967296) :
    Ends routine s (reported (.twoSpot 3) (.twoSpot 4) x) (s.run (flagged setTwoSpot value z)) :=
  ends_reported (by decide) rfl rfl hopen hopen' rfl h hz

/-- Each routine computes its entry in the table. -/
theorem computes_call (hs : s.Sound) (hroutine : routine ∈ routines)
    (hopen : ∀ v ∈ results routine, (s.cell v).ignored = false) :
    Computes routine s (operands routine) (outcome (s.random short).1.toNat routine) (call routine) := by
  have opened {v : Variable} (hv : v ∈ results routine) : (s.cell v).ignored = false := hopen v hv
  unfold call
  split
  · exact .spots hs fun x y hx hy ↦
      ends_checked rfl (opened (by decide)) (Exact.word (short_arithmetic hx hy).1).narrow
  · exact .spots hs fun x y hx hy ↦ ends_flagged_setSpot (opened (by decide)) (opened (by decide))
      (.word (short_arithmetic hx hy).1) (short_arithmetic hx hy).1
  · refine .spots hs fun x y _ _ ↦ ends_setSpot (opened (by decide)) (toNat_difference x y) ?_
    omega
  · refine .operand rfl fun x _ ↦ .done (ends_setSpot (opened (by decide)) (toNat_increment x) ?_)
    omega
  · exact .spots hs fun x y _ _ ↦ ends_checked rfl (opened (by decide)) (Exact.checkedMul x y).narrow
  · exact .spots hs fun x y hx hy ↦ ends_flagged_setSpot (opened (by decide)) (opened (by decide))
      (.checkedMul x y) (short_arithmetic hx hy).2.1
  · exact .spots hs fun x y hx _ ↦ ends_quotient rfl (opened (by decide)) hx y
  · exact .pair hs rfl rfl fun x y _ _ ↦ ends_checked rfl (opened (by decide)) (Exact.word (toNat_div x y)).narrow
  · exact .twoSpots hs fun x y ↦ ends_checked rfl (opened (by decide)) (.checkedAdd x y)
  · exact .twoSpots hs fun x y ↦ ends_flagged_setTwoSpot (opened (by decide)) (opened (by decide))
      (.checkedAdd x y) (BitVec.toNat_add x y)
  · refine .twoSpots hs fun x y ↦ ends_setTwoSpot (opened (by decide)) ?_
    rw [BitVec.toNat_sub]
    omega
  · exact .spots hs fun x y hx hy ↦ ends_setTwoSpot (opened (by decide)) (short_arithmetic hx hy).2.2
  · exact .spots hs fun x y hx hy ↦ ends_setTwoSpot (opened (by decide)) (short_arithmetic hx hy).2.1
  · exact .twoSpots hs fun x y ↦ ends_checked rfl (opened (by decide)) (.checkedMul x y)
  · exact .twoSpots hs fun x y ↦ ends_flagged_setTwoSpot (opened (by decide)) (opened (by decide))
      (.checkedMul x y) (BitVec.toNat_mul x y)
  · exact .twoSpots hs fun x y ↦ ends_quotient rfl (opened (by decide)) (toNat_le x) y
  · exact .done (ends_draw (by decide) (Nat.le_refl _) (opened (by decide)))
  · exact absurd hroutine (by simp_all [routines])

theorem operands_known (h : vs.find? (fun v ↦ !(s.read v).isOk) = none) :
    ∃ xs : List Word, vs.map s.read = xs.map .ok := by
  induction vs with
  | nil => exact ⟨[], rfl⟩
  | cons v vs ih =>
    rw [List.find?_eq_none, List.forall_mem_cons, ← List.find?_eq_none] at h
    obtain ⟨xs, hxs⟩ := ih h.2
    cases hv : s.read v with
    | error f =>
      rw [hv] at h
      exact absurd rfl h.1
    | ok x => exact ⟨x :: xs, by rw [List.map_cons, List.map_cons, hv, hxs]⟩

/-- A routine whose results are not ignored faults at its first operand that has no number, or else ends as the table
says: it sets its results and changes no other variable, or there is an overflow. It never finds a result too wide for
its variable, and if it faults, the store is as it was. -/
theorem routine_arithmetic (hs : s.Reachable) (hroutine : routine ∈ routines)
    (hopen : ∀ v ∈ results routine, (s.cell v).ignored = false) :
    (∀ v, (operands routine).find? (fun v ↦ !(s.read v).isOk) = some v →
      s.run (call routine) = (.error (.unset v), s)) ∧
    (∃ drawn < 65536, ∀ xs : List Word, (operands routine).map s.read = xs.map .ok →
      Ends routine s (outcome drawn routine (xs.map BitVec.toNat)) (s.run (call routine))) ∧
    ∀ f t, s.run (call routine) = (.error f, t) → f.code ≠ .e275 ∧ t = s := by
  have hcall := computes_call hs.sound hroutine hopen
  refine ⟨fun v ↦ hcall.unset, ⟨_, random_lt (by decide) s, fun xs ↦ hcall.ends⟩, fun f t hfault ↦ ?_⟩
  cases hfind : (operands routine).find? (fun v ↦ !(s.read v).isOk) with
  | some v =>
    rw [hcall.unset hfind] at hfault
    cases hfault
    exact ⟨nofun, rfl⟩
  | none =>
    obtain ⟨xs, hxs⟩ := operands_known hfind
    have hends := hcall.ends hxs
    rw [hfault] at hends
    cases houtcome : outcome (s.random short).1.toNat routine (xs.map BitVec.toNat) with
    | none =>
      rw [houtcome] at hends
      cases hends
      exact ⟨nofun, rfl⟩
    | some changes =>
      rw [houtcome] at hends
      obtain ⟨u, hu, -⟩ := hends
      cases hu

/-- The product of the two greatest short numbers. -/
theorem routine_arithmetic_square :
    let s := (serve {} [.write (.spot 1) 65535, .write (.spot 2) 65535]).2
    s.run (call 1030) = (.error (.overflow 1030), s) ∧
      ∃ t, s.run (call 1039) = (.ok (), t) ∧ (t.read (.spot 3)).map BitVec.toNat = .ok 1 ∧
        (t.read (.spot 4)).map BitVec.toNat = .ok 2 := by
  intro s
  have hs : s.Reachable := ⟨[], ⟨0, 0⟩, _, rfl⟩
  obtain ⟨-, ⟨drawn, -, hchecked⟩, -⟩ := routine_arithmetic hs (by decide : 1030 ∈ routines) (by decide)
  obtain ⟨-, ⟨drawn', -, hreported⟩, -⟩ := routine_arithmetic hs (by decide : 1039 ∈ routines) (by decide)
  obtain ⟨t, ht, hsets⟩ := hreported [65535, 65535] rfl
  have hproduct := hsets.numbers (v := .spot 3) (x := 1) (by decide)
  have hflag := hsets.numbers (v := .spot 4) (x := 2) (by decide)
  exact ⟨hchecked [65535, 65535] rfl, t, ht, hproduct.1, hflag.1⟩

end Store

end Intercal
