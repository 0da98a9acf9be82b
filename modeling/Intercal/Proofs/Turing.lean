import Mathlib.Logic.ExistsUnique
import Intercal.Store.Stream

namespace Intercal.Store

def total : List Word → Nat
  | [] => 0
  | x :: xs => x.toNat + total xs

/-- What elements are written as after the octet `p`: its difference from their sum so far, with the bits reversed. -/
def spoken (p : UInt8) (xs : List Word) : List UInt8 :=
  (List.range xs.length).map fun k ↦ reverseBits (p - UInt8.ofNat (total (xs.take (k + 1))))

def widen (b : UInt8) : Word := BitVec.ofNat 32 b.toNat

def differences (q : UInt8) : List UInt8 → List Word
  | [] => []
  | b :: bs => widen (b - q) :: differences b bs

theorem toNat_widen (b : UInt8) : (widen b).toNat = b.toNat := by
  have hb := b.toNat_lt
  rw [widen, BitVec.toNat_ofNat]
  omega

theorem ofNat_widen (b : UInt8) : UInt8.ofNat (widen b).toNat = b := by rw [toNat_widen, UInt8.ofNat_toNat]

theorem eq_widen {x : Word} (h : x.toNat ≤ 255) : x = widen (UInt8.ofNat x.toNat) := by
  apply BitVec.eq_of_toNat_eq
  rw [toNat_widen, UInt8.toNat_ofNat']
  omega

theorem reverseBits_reverseBits (b : UInt8) : reverseBits (reverseBits b) = b :=
  congrArg UInt8.ofBitVec BitVec.reverse_reverse_eq

theorem sub_total_cons (p : UInt8) (x : Word) (xs : List Word) :
    p - UInt8.ofNat (total (x :: xs)) = p - UInt8.ofNat x.toNat - UInt8.ofNat (total xs) := by
  rw [total, UInt8.ofNat_add]
  grind

theorem turing_eq (p : UInt8) (xs : List Word) :
    turing p xs = (List.range xs.length).map fun k ↦ p - UInt8.ofNat (total (xs.take (k + 1))) := by
  induction xs generalizing p with
  | nil => rfl
  | cons x xs ih =>
    rw [turing, ih, List.length_cons, List.range_succ_eq_map, List.map_cons, List.map_map]
    congr 1
    apply List.map_congr_left
    intro k _
    exact (sub_total_cons p x (xs.take (k + 1))).symm

theorem map_turing (p : UInt8) (xs : List Word) : (turing p xs).map reverseBits = spoken p xs := by
  rw [turing_eq, List.map_map]
  rfl

theorem turing_append (p : UInt8) (xs ys : List Word) :
    turing p (xs ++ ys) = turing p xs ++ turing (p - UInt8.ofNat (total xs)) ys := by
  induction xs generalizing p with
  | nil =>
    have hzero : p - UInt8.ofNat (total []) = p := UInt8.sub_zero p
    rw [hzero]
    rfl
  | cons x xs ih =>
    rw [sub_total_cons]
    exact congrArg (_ :: ·) (ih _)

theorem getLast_turing (p : UInt8) (xs : List Word) :
    (turing p xs).getLast?.getD p = p - UInt8.ofNat (total xs) := by
  induction xs generalizing p with
  | nil => exact (UInt8.sub_zero p).symm
  | cons x xs ih => rw [turing, List.getLast?_cons, Option.getD_some, ih, sub_total_cons]

theorem spoken_append (p : UInt8) (xs ys : List Word) :
    spoken p (xs ++ ys) = spoken p xs ++ spoken (p - UInt8.ofNat (total xs)) ys := by
  rw [← map_turing, turing_append, List.map_append, map_turing, map_turing]

theorem spoken_cons (p : UInt8) (x : Word) (xs : List Word) :
    spoken p (x :: xs) = reverseBits (p - UInt8.ofNat x.toNat) :: spoken (p - UInt8.ofNat x.toNat) xs := by
  rw [← map_turing, turing, List.map_cons, map_turing]

/-- Every octet string is written by just one row of octets as elements. -/
theorem existsUnique_spoken (p : UInt8) (octets : List UInt8) :
    ∃! xs : List Word, (∀ x ∈ xs, x.toNat ≤ 255) ∧ spoken p xs = octets := by
  induction octets generalizing p with
  | nil =>
    refine ⟨[], ⟨nofun, rfl⟩, ?_⟩
    rintro (_ | ⟨x, xs⟩) ⟨-, hxs⟩
    · rfl
    · rw [spoken_cons] at hxs
      cases hxs
  | cons b octets ih =>
    obtain ⟨xs, ⟨hsmall, hspoken⟩, hunique⟩ := ih (reverseBits b)
    have hfirst : p - UInt8.ofNat (widen (p - reverseBits b)).toNat = reverseBits b := by
      rw [ofNat_widen]
      grind
    refine ⟨widen (p - reverseBits b) :: xs, ⟨?_, ?_⟩, ?_⟩
    · have hle := (p - reverseBits b).toNat_lt
      rw [List.forall_mem_cons, toNat_widen]
      exact ⟨by omega, hsmall⟩
    · rw [spoken_cons, hfirst, reverseBits_reverseBits, hspoken]
    · rintro (_ | ⟨y, ys⟩) ⟨hys, hyspoken⟩
      · cases hyspoken
      · rw [spoken_cons, List.cons.injEq] at hyspoken
        rw [List.forall_mem_cons] at hys
        have hoctet : p - UInt8.ofNat y.toNat = reverseBits b := by rw [← hyspoken.1, reverseBits_reverseBits]
        have hy : UInt8.ofNat y.toNat = p - reverseBits b := by grind
        rw [hoctet] at hyspoken
        rw [eq_widen hys.1, hy, hunique ys ⟨hys.2, hyspoken.2⟩]

theorem length_differences (q : UInt8) (octets : List UInt8) : (differences q octets).length = octets.length := by
  induction octets generalizing q with
  | nil => rfl
  | cons b octets ih => rw [differences, List.length_cons, ih, List.length_cons]

theorem differences_append (q : UInt8) (front back : List UInt8) :
    differences q (front ++ back) = differences q front ++ differences (front.getLast?.getD q) back := by
  induction front generalizing q with
  | nil => rfl
  | cons b front ih =>
    rw [List.cons_append, differences, ih, List.getLast?_cons, Option.getD_some]
    rfl

/-- The elements read so far add up to the last octet, less the one before them all. -/
theorem total_differences {q b : UInt8} {octets : List UInt8} {k : Nat} (h : octets[k]? = some b) :
    UInt8.ofNat (total ((differences q octets).take (k + 1))) = b - q := by
  induction octets generalizing q k with
  | nil => cases h
  | cons c octets ih =>
    cases k with
    | zero =>
      cases h
      exact ofNat_widen (b - q)
    | succ k =>
      have hrest := ih (q := c) h
      rw [differences, List.take_succ_cons, total, UInt8.ofNat_add, ofNat_widen, hrest]
      grind

/-- Elements that were read are written as octets that differ from those read by a constant, bits apart. -/
theorem turing_differences (p q : UInt8) (octets : List UInt8) :
    turing p (differences q octets) = octets.map fun b ↦ p + q - b := by
  induction octets generalizing p q with
  | nil => rfl
  | cons b octets ih =>
    have hfirst : p - UInt8.ofNat (widen (b - q)).toNat = p + q - b := by
      rw [ofNat_widen]
      grind
    have hshift : p + q - b + b = p + q := by grind
    rw [differences, turing, hfirst, ih, hshift]
    rfl

end Intercal.Store
