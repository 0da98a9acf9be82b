import Intercal.Bits
import Mathlib.Data.Nat.Nth

namespace Intercal.Bits

variable {value mask : Word} {i j k : Nat}

theorem getLsbD_ofList (bs : List Bool) (hi : i < 32) : (ofList bs).getLsbD i = bs[i]?.getD false := by
  induction bs generalizing i with
  | nil => exact BitVec.getLsbD_zero
  | cons b bs ih =>
    rw [ofList, BitVec.getLsbD_or, BitVec.getLsbD_ofNat, BitVec.getLsbD_shiftLeft, decide_eq_true hi]
    cases i with
    | zero => cases b <;> rfl
    | succ i =>
      have hlow : b.toNat.testBit (i + 1) = false := by
        rw [Nat.testBit_succ]
        cases b <;> exact Nat.zero_testBit i
      rw [hlow, Nat.add_sub_cancel, ih (Nat.lt_of_succ_lt hi)]
      simp

def rank (mask : Word) (i : Nat) : Nat := Nat.count (fun j ↦ mask.getLsbD j = true) i

def ones (mask : Word) : Nat := rank mask 32

noncomputable def placeOf (mask : Word) (k : Nat) : Nat := Nat.nth (fun j ↦ mask.getLsbD j = true) k

/-- The one-bits of a mask whose rank is a one-bit of the other. -/
def narrow (mask inner : Word) : Word :=
  ofList ((List.range 32).map fun i ↦ mask.getLsbD i && inner.getLsbD (rank mask i))

section Ranks

theorem rank_le (mask : Word) (i : Nat) : rank mask i ≤ i := Nat.count_le _

theorem rank_succ (mask : Word) (i : Nat) :
    rank mask (i + 1) = rank mask i + if mask.getLsbD i = true then 1 else 0 := Nat.count_succ _ i

theorem placeOf_rank (hi : mask.getLsbD i = true) : placeOf mask (rank mask i) = i := Nat.nth_count hi

theorem rank_injective (hi : mask.getLsbD i = true) (hj : mask.getLsbD j = true) (h : rank mask i = rank mask j) :
    i = j := Nat.count_injective hi hj h

theorem rank_lt_ones (hi : mask.getLsbD i = true) : rank mask i < ones mask :=
  Nat.count_strict_mono hi (BitVec.lt_of_getLsbD hi)

/-- The numbers that pass a test are listed by rank. -/
theorem getElem?_filter_range (p : Nat → Bool) (n : Nat) :
    ((List.range n).filter p)[k]? = some i ↔ i < n ∧ p i = true ∧ Nat.count (fun j ↦ p j = true) i = k := by
  have hlength : ((List.range i).filter p).length = Nat.count (fun j ↦ p j = true) i := by
    rw [← List.countP_eq_length_filter, Nat.count]
    simp only [Bool.decide_eq_true]
  have hlisted (hi : i < n) (hp : p i = true) :
      ((List.range n).filter p)[Nat.count (fun j ↦ p j = true) i]? = some i := by
    obtain ⟨d, rfl⟩ := Nat.exists_eq_add_of_lt hi
    rw [Nat.add_assoc, List.range_add, List.range_succ_eq_map, List.filter_append, ← hlength,
      List.getElem?_append_right (Nat.le_refl _), Nat.sub_self]
    simp [hp]
  constructor
  · intro hk
    obtain ⟨hmem, hp⟩ := List.mem_filter.mp (List.mem_of_getElem? hk)
    obtain ⟨hlt, -⟩ := List.getElem?_eq_some_iff.mp hk
    have hi := List.mem_range.mp hmem
    refine ⟨hi, hp, ?_⟩
    apply ((List.getElem?_inj hlt (List.nodup_range.filter p)).mp _).symm
    rw [hk, hlisted hi hp]
  · rintro ⟨hi, hp, rfl⟩
    exact hlisted hi hp

theorem exists_rank_eq (hk : k < ones mask) : ∃ i, mask.getLsbD i = true ∧ rank mask i = k := by
  have hlength : ((List.range 32).filter mask.getLsbD).length = ones mask := by
    rw [← List.countP_eq_length_filter, ones, rank, Nat.count]
    simp only [Bool.decide_eq_true]
  rw [← hlength] at hk
  obtain ⟨-, hi, hrank⟩ := (getElem?_filter_range mask.getLsbD 32).mp (List.getElem?_eq_getElem hk)
  exact ⟨_, hi, hrank⟩

end Ranks

section Select

/-- Where a bit of a selection comes from. -/
theorem getLsbD_select_iff :
    (select value mask).getLsbD k = true ↔ ∃ i, mask.getLsbD i = true ∧ rank mask i = k ∧ value.getLsbD i = true := by
  by_cases hk : k < 32
  · rw [select, getLsbD_ofList _ hk, bitsAt, List.getElem?_map]
    cases hplace : ((List.range 32).filter mask.getLsbD)[k]? with
    | some i =>
      obtain ⟨-, hi, hrank⟩ := (getElem?_filter_range _ _).mp hplace
      constructor
      · intro hvalue
        exact ⟨i, hi, hrank, hvalue⟩
      · rintro ⟨j, hj, hjrank, hvalue⟩
        cases rank_injective hi hj (hrank.trans hjrank.symm)
        exact hvalue
    | none =>
      constructor
      · intro hvalue
        cases hvalue
      · rintro ⟨i, hi, hrank, -⟩
        rw [(getElem?_filter_range _ _).mpr ⟨BitVec.lt_of_getLsbD hi, hi, hrank⟩] at hplace
        cases hplace
  · constructor
    · intro hvalue
      exact absurd (BitVec.lt_of_getLsbD hvalue) hk
    · rintro ⟨i, hi, hrank, -⟩
      have hlt := BitVec.lt_of_getLsbD hi
      have hle := rank_le mask i
      omega

theorem getLsbD_select_rank (hi : mask.getLsbD i = true) (value : Word) :
    (select value mask).getLsbD (rank mask i) = value.getLsbD i := by
  rw [Bool.eq_iff_iff, getLsbD_select_iff]
  constructor
  · rintro ⟨j, hj, hrank, hvalue⟩
    cases rank_injective hj hi hrank
    exact hvalue
  · intro hvalue
    exact ⟨i, hi, rfl, hvalue⟩

theorem getLsbD_select_placeOf (hk : k < ones mask) (value : Word) :
    (select value mask).getLsbD k = value.getLsbD (placeOf mask k) := by
  obtain ⟨i, hi, rfl⟩ := exists_rank_eq hk
  rw [getLsbD_select_rank hi, placeOf_rank hi]

theorem getLsbD_select_of_ones_le (hk : ones mask ≤ k) (value : Word) : (select value mask).getLsbD k = false := by
  rw [Bool.eq_false_iff]
  intro hvalue
  obtain ⟨i, hi, rfl, -⟩ := getLsbD_select_iff.mp hvalue
  have hlt := rank_lt_ones hi
  omega

theorem select_lt (value mask : Word) : (select value mask).toNat < 2 ^ ones mask := by
  apply Nat.lt_pow_two_of_testBit
  intro k hk
  exact getLsbD_select_of_ones_le hk value

theorem select_and (value mask : Word) : select (value &&& mask) mask = select value mask := by
  apply BitVec.eq_of_getLsbD_eq
  intro k _
  rw [Bool.eq_iff_iff, getLsbD_select_iff, getLsbD_select_iff]
  simp only [BitVec.getLsbD_and, Bool.and_eq_true]
  constructor
  · rintro ⟨i, hi, hrank, hvalue, -⟩
    exact ⟨i, hi, hrank, hvalue⟩
  · rintro ⟨i, hi, hrank, hvalue⟩
    exact ⟨i, hi, hrank, hvalue, hi⟩

theorem getLsbD_narrow (mask inner : Word) (i : Nat) :
    (narrow mask inner).getLsbD i = (mask.getLsbD i && inner.getLsbD (rank mask i)) := by
  by_cases hi : i < 32
  · rw [narrow, getLsbD_ofList _ hi, List.getElem?_map, List.getElem?_range hi]
    rfl
  · rw [BitVec.getLsbD_of_ge _ _ (by omega), BitVec.getLsbD_of_ge mask _ (by omega)]
    rfl

/-- A place that is left has the rank, among those left, that its rank has in the inner mask. -/
theorem rank_narrow (mask inner : Word) (i : Nat) : rank (narrow mask inner) i = rank inner (rank mask i) := by
  induction i with
  | zero => rfl
  | succ i ih =>
    rw [rank_succ, rank_succ mask, ih, getLsbD_narrow]
    cases hi : mask.getLsbD i with
    | false => simp
    | true => simp [rank_succ]

theorem select_select (value mask inner : Word) :
    select (select value mask) inner = select value (narrow mask inner) := by
  apply BitVec.eq_of_getLsbD_eq
  intro k _
  rw [Bool.eq_iff_iff, getLsbD_select_iff, getLsbD_select_iff]
  simp only [getLsbD_narrow, rank_narrow, Bool.and_eq_true]
  constructor
  · rintro ⟨j, hj, hrank, hselected⟩
    obtain ⟨i, hi, rfl, hvalue⟩ := getLsbD_select_iff.mp hselected
    exact ⟨i, ⟨hi, hj⟩, hrank, hvalue⟩
  · rintro ⟨i, ⟨hi, hj⟩, hrank, hvalue⟩
    exact ⟨rank mask i, hj, hrank, by rw [getLsbD_select_rank hi, hvalue]⟩

end Select

section Short

theorem getLsbD_of_short {x : Word} (hx : x.toNat ≤ 65535) (hk : 16 ≤ k) : x.getLsbD k = false := by
  apply Nat.testBit_lt_two_pow
  calc x.toNat < 2 ^ 16 := by omega
    _ ≤ 2 ^ k := Nat.pow_le_pow_right (by omega) hk

theorem eq_of_short {x y : Word} (hx : x.toNat ≤ 65535) (hy : y.toNat ≤ 65535)
    (h : ∀ i < 16, x.getLsbD i = y.getLsbD i) : x = y := by
  apply BitVec.eq_of_getLsbD_eq
  intro k _
  by_cases hk : k < 16
  · exact h k hk
  · rw [getLsbD_of_short hx (by omega), getLsbD_of_short hy (by omega)]

theorem ones_le_of_short (h : mask.toNat ≤ 65535) : ones mask ≤ 16 := by
  apply Nat.le_of_not_lt
  intro hlt
  obtain ⟨i, hi, hrank⟩ := exists_rank_eq hlt
  have hle := rank_le mask i
  rw [getLsbD_of_short h (by omega)] at hi
  cases hi

theorem select_short (hones : ones mask ≤ 16) (value : Word) : (select value mask).toNat ≤ 65535 := by
  have hlt := select_lt value mask
  have hle : 2 ^ ones mask ≤ 2 ^ 16 := Nat.pow_le_pow_right (by omega) hones
  omega

end Short

section Mingle

variable {left right w : Word}

theorem getElem?_interleave {α : Type} {as bs : List α} (h : as.length = bs.length) (i : Nat) :
    (interleave as bs)[2 * i]? = as[i]? ∧ (interleave as bs)[2 * i + 1]? = bs[i]? := by
  induction as generalizing bs i with
  | nil =>
    cases List.length_eq_zero_iff.mp h.symm
    exact ⟨rfl, rfl⟩
  | cons a as ih =>
    cases bs with
    | nil => cases h
    | cons b bs =>
      cases i with
      | zero => exact ⟨rfl, rfl⟩
      | succ i => exact ih (Nat.succ.inj h) i

theorem mingle_eq_ok :
    mingle left right = .ok w ↔ (left.toNat ≤ 65535 ∧ right.toNat ≤ 65535) ∧
      w = ofList (interleave (bitsAt right (List.range 16)) (bitsAt left (List.range 16))) := by
  unfold mingle mingle?
  by_cases hshort : left.toNat ≤ 65535 ∧ right.toNat ≤ 65535
  · rw [if_pos hshort]
    simp [hshort, eq_comm]
  · rw [if_neg hshort]
    simp [hshort]

theorem getLsbD_mingle (h : mingle left right = .ok w) (hi : i < 16) :
    w.getLsbD (2 * i + 1) = left.getLsbD i ∧ w.getLsbD (2 * i) = right.getLsbD i := by
  obtain ⟨-, rfl⟩ := mingle_eq_ok.mp h
  have hlength : (bitsAt right (List.range 16)).length = (bitsAt left (List.range 16)).length := by
    rw [bitsAt, bitsAt, List.length_map, List.length_map]
  obtain ⟨heven, hodd⟩ := getElem?_interleave hlength i
  rw [getLsbD_ofList _ (by omega), getLsbD_ofList _ (by omega), heven, hodd]
  simp [bitsAt, hi]

theorem getLsbD_select_odd (hi : i < 16) (value : Word) :
    (select value 0xAAAAAAAA#32).getLsbD i = value.getLsbD (2 * i + 1) := by
  have hranks : ∀ i < 16, (0xAAAAAAAA#32).getLsbD (2 * i + 1) = true ∧ rank 0xAAAAAAAA#32 (2 * i + 1) = i := by
    decide
  obtain ⟨hmask, hrank⟩ := hranks i hi
  rw [← getLsbD_select_rank hmask, hrank]

theorem getLsbD_select_even (hi : i < 16) (value : Word) :
    (select value 0x55555555#32).getLsbD i = value.getLsbD (2 * i) := by
  have hranks : ∀ i < 16, (0x55555555#32).getLsbD (2 * i) = true ∧ rank 0x55555555#32 (2 * i) = i := by
    decide
  obtain ⟨hmask, hrank⟩ := hranks i hi
  rw [← getLsbD_select_rank hmask, hrank]

theorem mingle_select (x : Word) : mingle (select x 0xAAAAAAAA#32) (select x 0x55555555#32) = .ok x := by
  have hodd : (select x 0xAAAAAAAA#32).toNat ≤ 65535 := select_short (by decide) x
  have heven : (select x 0x55555555#32).toNat ≤ 65535 := select_short (by decide) x
  have h := mingle_eq_ok.mpr ⟨⟨hodd, heven⟩, rfl⟩
  rw [h]
  apply congrArg
  apply BitVec.eq_of_getLsbD_eq
  intro j hj
  obtain ⟨hodd, heven⟩ := getLsbD_mingle h (i := j / 2) (by omega)
  rw [getLsbD_select_odd (by omega)] at hodd
  rw [getLsbD_select_even (by omega)] at heven
  rcases Nat.mod_two_eq_zero_or_one j with hmod | hmod
  · rwa [show 2 * (j / 2) = j by omega] at heven
  · rwa [show 2 * (j / 2) + 1 = j by omega] at hodd

end Mingle

/-- Mingle puts two short numbers at the odd and the even places, and a selection collects the bits under its mask by
rank. Mingling and selecting alternate places undo each other, and a selection from a selection is a selection. -/
theorem mingle_and_select :
    (∀ left right, (∃ w, mingle left right = .ok w) ↔ left.toNat ≤ 65535 ∧ right.toNat ≤ 65535) ∧
    (∀ left right w, mingle left right = .ok w →
      (∀ i < 16, w.getLsbD (2 * i + 1) = left.getLsbD i ∧ w.getLsbD (2 * i) = right.getLsbD i) ∧
      select w 0xAAAAAAAA#32 = left ∧ select w 0x55555555#32 = right) ∧
    (∀ x, mingle (select x 0xAAAAAAAA#32) (select x 0x55555555#32) = .ok x) ∧
    (∀ value mask k, (select value mask).getLsbD k =
      if k < ones mask then value.getLsbD (placeOf mask k) else false) ∧
    (∀ value mask, (select value mask).toNat < 2 ^ ones mask) ∧
    (∀ value other mask, value &&& mask = other &&& mask → select value mask = select other mask) ∧
    (∀ mask inner i, (narrow mask inner).getLsbD i = (mask.getLsbD i && inner.getLsbD (rank mask i))) ∧
    ∀ value mask inner, select (select value mask) inner = select value (narrow mask inner) := by
  refine ⟨fun left right ↦ ?_, fun left right w h ↦ ?_, fun x ↦ ?_, fun value mask k ↦ ?_, select_lt,
    fun value other mask h ↦ ?_, getLsbD_narrow, select_select⟩
  · constructor
    · rintro ⟨w, h⟩
      exact (mingle_eq_ok.mp h).1
    · intro hshort
      exact ⟨_, mingle_eq_ok.mpr ⟨hshort, rfl⟩⟩
  · obtain ⟨⟨hleft, hright⟩, -⟩ := mingle_eq_ok.mp h
    refine ⟨fun i ↦ getLsbD_mingle h, ?_, ?_⟩
    · apply eq_of_short (select_short (by decide) w) hleft
      intro i hi
      rw [getLsbD_select_odd hi, (getLsbD_mingle h hi).1]
    · apply eq_of_short (select_short (by decide) w) hright
      intro i hi
      rw [getLsbD_select_even hi, (getLsbD_mingle h hi).2]
  · exact mingle_select x
  · split
    · next hk => exact getLsbD_select_placeOf hk value
    · next hk => exact getLsbD_select_of_ones_le (by omega) value
  · rw [← select_and value, h, select_and]

theorem mingle_and_select_six :
    mingle 6#32 5#32 = .ok 57#32 ∧ select 57#32 0xAAAAAAAA#32 = 6#32 ∧ select 57#32 0x55555555#32 = 5#32 := by
  have h : mingle 6#32 5#32 = .ok 57#32 := rfl
  obtain ⟨-, hundone, -⟩ := mingle_and_select
  exact ⟨h, (hundone _ _ _ h).2⟩

end Intercal.Bits
