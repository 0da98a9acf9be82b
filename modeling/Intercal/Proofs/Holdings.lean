import Intercal.Proofs.Upkeep

namespace Intercal

def Variable.Fits (v : Variable) (x : Word) : Prop := v.kind.isShort → x.toNat ≤ 65535

theorem Store.fits_of_not_exceeds {v : Variable} {x : Word} (h : ¬ Store.exceeds v x) : v.Fits x := by
  intro hshort
  simpa [Store.exceeds, hshort] using h

theorem Store.exceeds_of_fits {v : Variable} {x : Word} (h : v.Fits x) : Store.exceeds v x = false := by
  rw [Store.exceeds, Bool.and_eq_false_imp]
  intro hshort
  exact decide_eq_false (Nat.not_lt.mpr (h hshort))

namespace Grid

structure Shaped (g : Grid) : Prop where
  nonempty : g.dimensions ≠ []
  positive : ∀ d ∈ g.dimensions, 0 < d
  size : g.elements.size = count g.dimensions

theorem foldl_mul (n : Nat) (ds : List Nat) : ds.foldl (· * ·) n = n * count ds := by
  unfold count
  induction ds generalizing n with
  | nil => simp
  | cons d ds ih => rw [List.foldl_cons, List.foldl_cons, ih, ih (1 * d), Nat.one_mul, Nat.mul_assoc]

theorem count_cons (d : Nat) (ds : List Nat) : count (d :: ds) = d * count ds := by
  rw [count, List.foldl_cons, foldl_mul, Nat.one_mul]

theorem count_append (ds es : List Nat) : count (ds ++ es) = count ds * count es := by
  rw [count, List.foldl_append, foldl_mul]
  rfl

theorem count_pos {ds : List Nat} (h : ∀ d ∈ ds, 0 < d) : 0 < count ds := by
  induction ds with
  | nil => exact Nat.one_pos
  | cons d ds ih =>
    rw [count_cons]
    exact Nat.mul_pos (h d List.mem_cons_self) (ih fun e he ↦ h e (List.mem_cons_of_mem d he))

theorem offsetFrom_lt {reached bound i : Nat} {ds is : List Nat} (hreached : reached < bound)
    (h : offsetFrom reached ds is = some i) : i < bound * count ds := by
  induction ds generalizing reached bound is with
  | nil =>
    cases is with
    | nil =>
      cases h
      simpa [count] using hreached
    | cons j is => cases h
  | cons d ds ih =>
    cases is with
    | nil => cases h
    | cons j is =>
      simp only [offsetFrom] at h
      split at h
      · next hj =>
        have hnext : reached * d + (j - 1) < bound * d :=
          calc reached * d + (j - 1) < reached * d + d := by omega
            _ = (reached + 1) * d := (Nat.succ_mul reached d).symm
            _ ≤ bound * d := Nat.mul_le_mul_right d hreached
        have hi := ih hnext h
        rwa [Nat.mul_assoc, ← count_cons] at hi
      · cases h

theorem offset?_lt {i : Nat} {ds is : List Nat} (h : offset? ds is = some i) : i < count ds := by
  simpa using offsetFrom_lt Nat.one_pos h

/-- The offset stays below the number of elements on the way down the dimensions as well. -/
theorem Shaped.offset?_take_lt {g : Grid} (hg : g.Shaped) {k reached : Nat} {is : List Nat}
    (h : offset? (g.dimensions.take k) (is.take k) = some reached) : reached < g.elements.size := by
  have hrest : 0 < count (g.dimensions.drop k) := count_pos fun d hd ↦ hg.positive d (List.mem_of_mem_drop hd)
  calc reached < count (g.dimensions.take k) := offset?_lt h
    _ ≤ count (g.dimensions.take k) * count (g.dimensions.drop k) := Nat.le_mul_of_pos_right _ hrest
    _ = g.elements.size := by rw [← count_append, List.take_append_drop, hg.size]

theorem shaped_zero {ds : List Nat} (hnonempty : ds ≠ []) (hpositive : 0 ∉ ds) : (zero ds).Shaped where
  nonempty := hnonempty
  positive _ hd := Nat.pos_of_ne_zero fun hzero ↦ hpositive (hzero ▸ hd)
  size := Array.size_replicate

structure Sound (v : Variable) (g : Grid) : Prop where
  shaped : g.Shaped
  fits : ∀ x ∈ g.elements, v.Fits x

theorem sound_zero {v : Variable} {ds : List Nat} (hnonempty : ds ≠ []) (hpositive : 0 ∉ ds) : (zero ds).Sound v where
  shaped := shaped_zero hnonempty hpositive
  fits x hx := by
    obtain ⟨-, rfl⟩ := Array.mem_replicate.mp hx
    exact fun _ ↦ Nat.zero_le _

theorem Sound.set {v : Variable} {g : Grid} (hg : g.Sound v) {x : Word} (hx : v.Fits x) (i : Nat) :
    ({ g with elements := g.elements.setIfInBounds i x } : Grid).Sound v where
  shaped := ⟨hg.shaped.nonempty, hg.shaped.positive, by simpa using hg.shaped.size⟩
  fits y hy := by
    rcases Array.mem_or_eq_of_mem_setIfInBounds hy with hmem | rfl
    · exact hg.fits y hmem
    · exact hx

end Grid

structure Cell.All {α : Type} (P : α → Prop) (c : Cell α) : Prop where
  value : P c.value
  history : ∀ x ∈ c.history, P x

namespace Bank

variable {α : Type} {P : Variable → α → Prop} {b : Bank α}

def All (P : Variable → α → Prop) (b : Bank α) : Prop := ∀ v c, b.get? v = some c → c.All (P v)

namespace All

theorem insert (h : b.All P) {v : Variable} {c : Cell α} (hc : c.All (P v)) : Bank.All P (b.insert v c) := by
  intro w d hd
  by_cases heq : v = w
  · subst heq
    rw [Table.get?_insert_self] at hd
    cases hd
    exact hc
  · rw [Table.get?_insert_of_ne b heq] at hd
    exact h w d hd

theorem retrieve? (h : b.All P) {v : Variable} {b' : Bank α} (hretrieve : b.retrieve? v = some b') : b'.All P := by
  unfold Bank.retrieve? at hretrieve
  split at hretrieve
  · next value ignored last older hget =>
    cases hretrieve
    have hcell := h v _ hget
    refine h.insert ⟨?_, fun x hx ↦ hcell.history x (List.mem_cons_of_mem last hx)⟩
    cases ignored with
    | true => exact hcell.value
    | false => exact hcell.history last List.mem_cons_self
  · cases hretrieve

theorem remember (h : b.All P) (v : Variable) : (b.remember v).All P := by
  unfold Bank.remember
  split
  · next c hget => exact h.insert ⟨(h v c hget).value, (h v c hget).history⟩
  · exact h

variable [Inhabited α]

theorem cell (h : b.All P) (hdefault : ∀ v, P v default) (v : Variable) : (b.cell v).All (P v) := by
  unfold Bank.cell
  cases hget : b.get? v with
  | some c => exact h v c hget
  | none => exact ⟨hdefault v, fun x hx ↦ absurd hx List.not_mem_nil⟩

theorem touch (h : b.All P) (hdefault : ∀ v, P v default) (v : Variable) : (b.touch v).All P :=
  h.insert (h.cell hdefault v)

theorem stash (h : b.All P) (hdefault : ∀ v, P v default) (v : Variable) : (b.stash v).All P := by
  have hcell := h.cell hdefault v
  refine h.insert ⟨hcell.value, fun x hx ↦ ?_⟩
  rcases List.mem_cons.mp hx with rfl | hx
  · exact hcell.value
  · exact hcell.history x hx

theorem ignore (h : b.All P) (hdefault : ∀ v, P v default) (v : Variable) : (b.ignore v).All P :=
  h.insert ⟨(h.cell hdefault v).value, (h.cell hdefault v).history⟩

end All

end Bank

namespace Store

variable {s : Store}

def GridSound (v : Variable) (g? : Option Grid) : Prop := ∀ g, g? = some g → g.Sound v

/-- All numbers have room where they stand, and all arrays are well shaped, now and in the history. -/
structure Sound (s : Store) : Prop where
  scalars : s.scalars.All Variable.Fits
  arrays : s.arrays.All GridSound

theorem default_fits (v : Variable) : v.Fits default := fun _ ↦ Nat.zero_le _

theorem default_gridSound (v : Variable) : GridSound v default := nofun

theorem Sound.write (hs : s.Sound) (v : Variable) (x : Word) : (s.run (write v x)).2.Sound := by
  have htouch := hs.scalars.touch default_fits v
  unfold run Store.write
  split
  · exact hs
  · dsimp only
    split
    · exact ⟨htouch, hs.arrays⟩
    · split
      · exact ⟨htouch, hs.arrays⟩
      · next hexceeds =>
        have hcell := hs.scalars.cell default_fits v
        exact ⟨htouch.insert ⟨fits_of_not_exceeds hexceeds, hcell.history⟩, hs.arrays⟩

theorem Sound.writeElement (hs : s.Sound) (v : Variable) (subscripts : List Nat) (x : Word) :
    (s.run (writeElement v subscripts x)).2.Sound := by
  unfold run Store.writeElement
  split
  · exact hs
  · next c hget =>
    have hcell := hs.arrays v c hget
    split
    · exact hs
    · split
      · exact hs
      · next g hg =>
        split
        · exact hs
        · split
          · exact hs
          · next i _ hexceeds =>
            have hgrid := (hcell.value g hg).set (fits_of_not_exceeds hexceeds) i
            refine ⟨hs.scalars, hs.arrays.insert ⟨?_, hcell.history⟩⟩
            intro g' hg'
            cases hg'
            exact hgrid

theorem Sound.redimension (hs : s.Sound) (v : Variable) (dimensions : List Nat) :
    (s.run (redimension v dimensions)).2.Sound := by
  have htouch := hs.arrays.touch default_gridSound v
  unfold run Store.redimension
  split
  · exact hs
  · split
    · exact hs
    · next hdimensions =>
      rw [Bool.or_eq_true, not_or, List.isEmpty_iff, List.contains_iff_mem] at hdimensions
      split
      · exact hs
      · dsimp only
        split
        · exact ⟨hs.scalars, htouch⟩
        · split
          · exact ⟨hs.scalars, htouch⟩
          · have hcell := hs.arrays.cell default_gridSound v
            refine ⟨hs.scalars, htouch.insert ⟨?_, hcell.history⟩⟩
            intro g hg
            cases hg
            exact Grid.sound_zero hdimensions.1 hdimensions.2

theorem Sound.stash (hs : s.Sound) (v : Variable) : (s.run (stash v)).2.Sound := by
  unfold run Store.stash
  split
  · exact ⟨hs.scalars, hs.arrays.stash default_gridSound v⟩
  · exact ⟨hs.scalars.stash default_fits v, hs.arrays⟩

theorem Sound.retrieve (hs : s.Sound) (v : Variable) : (s.run (retrieve v)).2.Sound := by
  unfold run Store.retrieve
  split <;> split
  · next hretrieve => exact ⟨hs.scalars, hs.arrays.retrieve? hretrieve⟩
  · exact hs
  · next hretrieve => exact ⟨hs.scalars.retrieve? hretrieve, hs.arrays⟩
  · exact hs

theorem Sound.ignore (hs : s.Sound) (v : Variable) : (s.run (ignore v)).2.Sound := by
  unfold run Store.ignore
  split
  · exact ⟨hs.scalars, hs.arrays.ignore default_gridSound v⟩
  · exact ⟨hs.scalars.ignore default_fits v, hs.arrays⟩

theorem Sound.remember (hs : s.Sound) (v : Variable) : (s.run (remember v)).2.Sound := by
  unfold run Store.remember
  split
  · exact ⟨hs.scalars, hs.arrays.remember v⟩
  · exact ⟨hs.scalars.remember v, hs.arrays⟩

theorem steady_sound : Steady Sound fun _ ↦ True where
  streams hscalars harrays hs := ⟨hscalars ▸ hs.scalars, harrays ▸ hs.arrays⟩
  faults _ := trivial
  write v x _ hs := ⟨hs.write v x, fun _ _ ↦ trivial⟩
  writeElement v subscripts x _ hs := ⟨hs.writeElement v subscripts x, fun _ _ ↦ trivial⟩
  redimension v dimensions _ hs := ⟨hs.redimension v dimensions, fun _ _ ↦ trivial⟩
  stash v _ hs := ⟨hs.stash v, fun _ _ ↦ trivial⟩
  retrieve v _ hs := ⟨hs.retrieve v, fun _ _ ↦ trivial⟩
  ignore v _ hs := ⟨hs.ignore v, fun _ _ ↦ trivial⟩
  remember v _ hs := ⟨hs.remember v, fun _ _ ↦ trivial⟩

def Reachable (s : Store) : Prop :=
  ∃ (input : List UInt8) (source : Random.Source) (rs : List Request), (serve { input, source } rs).2 = s

theorem sound_new (input : List UInt8) (source : Random.Source) : ({ input, source } : Store).Sound :=
  ⟨nofun, nofun⟩

theorem Reachable.sound (h : s.Reachable) : s.Sound := by
  obtain ⟨input, source, rs, rfl⟩ := h
  exact steady_sound.serve (fun _ ↦ trivial) rs (sound_new input source)

theorem Sound.grid (h : s.Sound) {v : Variable} {g : Grid} (hg : s.grid v = .ok g) : g.Sound v := by
  unfold Store.grid at hg
  split at hg
  · next c g' hget =>
    cases hg
    exact (h.arrays v _ hget).value g rfl
  · cases hg

theorem Sound.read_fits (h : s.Sound) {v : Variable} {x : Word} (hx : s.read v = .ok x) : v.Fits x := by
  unfold read at hx
  split at hx
  · cases hx
  · split at hx
    · next c hget =>
      cases hx
      exact (h.scalars v c hget).value
    · cases hx

/-- Words take the sum, the product and the joined bits of two short numbers without loss. -/
theorem short_arithmetic {x y : Word} (hx : x.toNat ≤ 65535) (hy : y.toNat ≤ 65535) :
    (x + y).toNat = x.toNat + y.toNat ∧ (x * y).toNat = x.toNat * y.toNat ∧
      (x <<< 16 ||| y).toNat = x.toNat * SystemLibrary.short + y.toNat := by
  have hproduct : x.toNat * y.toNat ≤ 65535 * 65535 := Nat.mul_le_mul hx hy
  have hshift : (x <<< 16).toNat = 2 ^ 16 * x.toNat := by
    rw [BitVec.toNat_shiftLeft, Nat.shiftLeft_eq, Nat.mul_comm]
    omega
  refine ⟨?_, ?_, ?_⟩
  · rw [BitVec.toNat_add]
    omega
  · rw [BitVec.toNat_mul]
    omega
  · rw [BitVec.toNat_or, hshift, ← Nat.two_pow_add_eq_or_of_lt (by omega), SystemLibrary.short]
    omega

/-- Whatever was asked of a store, its numbers have room where they stand and its arrays are well shaped. An offset into
an array is below the number of its elements at every stage and thus leads to an element, and the word arithmetic of the
system library on spots is exact. -/
theorem reachable_bounds (h : s.Reachable) :
    s.Sound ∧
    (∀ v g subscripts, s.grid v = .ok g →
      (∀ k reached, Grid.offset? (g.dimensions.take k) (subscripts.take k) = some reached →
        reached < g.elements.size) ∧
      ∀ i, Grid.offset? g.dimensions subscripts = some i → ∃ x, g.elements[i]? = some x) ∧
    ∀ x y, s.read (.spot 1) = .ok x → s.read (.spot 2) = .ok y →
      (x + y).toNat = x.toNat + y.toNat ∧ (x * y).toNat = x.toNat * y.toNat ∧
        (x <<< 16 ||| y).toNat = x.toNat * SystemLibrary.short + y.toNat := by
  have hsound := h.sound
  refine ⟨hsound, fun v g subscripts hg ↦ ?_, fun x y hx hy ↦ ?_⟩
  · have hshaped := (hsound.grid hg).shaped
    refine ⟨fun k reached ↦ hshaped.offset?_take_lt, fun i hi ↦ ?_⟩
    have hlt : i < g.elements.size := hshaped.size ▸ Grid.offset?_lt hi
    exact ⟨g.elements[i], Array.getElem?_eq_getElem hlt⟩
  · exact short_arithmetic (hsound.read_fits hx rfl) (hsound.read_fits hy rfl)

def crowded : Store :=
  (serve {} [.write (.spot 1) 65535, .write (.spot 2) 65535, .stash (.spot 2), .redimension ⟨.tail, 1⟩ [2, 3]]).2

theorem reachable_bounds_crowded :
    crowded.Reachable ∧ crowded.Sound ∧
      (∃ g, crowded.grid ⟨.tail, 1⟩ = .ok g ∧ Grid.offset? g.dimensions [2, 3] = some 5 ∧
        ∃ x, g.elements[5]? = some x) ∧
      crowded.read (.spot 1) = .ok 65535 ∧ crowded.read (.spot 2) = .ok 65535 ∧
      ((65535 : Word) * 65535).toNat = 65535 * 65535 := by
  have hreachable : crowded.Reachable := ⟨[], ⟨0, 0⟩, _, rfl⟩
  have hgrid : crowded.grid ⟨.tail, 1⟩ = .ok (.zero [2, 3]) := rfl
  obtain ⟨hsound, hoffsets, hspots⟩ := reachable_bounds hreachable
  refine ⟨hreachable, hsound, ⟨_, hgrid, rfl, (hoffsets _ _ [2, 3] hgrid).2 5 rfl⟩, rfl, rfl, ?_⟩
  exact (hspots 65535 65535 rfl rfl).2.1

end Store

end Intercal
