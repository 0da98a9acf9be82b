import Intercal.Proofs.Closure
import Mathlib.Data.List.Infix
import Mathlib.Data.List.Induction

namespace Intercal

section Faults

variable {front statements : List Statement} {s : Statement} {Bad : List Statement → Statement → Prop}

def Faultless (Bad : List Statement → Statement → Prop) (statements : List Statement) : Prop :=
  ∀ front s, front ++ [s] <+: statements → ¬ Bad front s

structure FirstFault (Bad : List Statement → Statement → Prop) (statements front : List Statement) (s : Statement) :
    Prop where
  here : front ++ [s] <+: statements
  bad : Bad front s
  before : Faultless Bad front

theorem faultless_nil : Faultless Bad [] := by
  intro front s hprefix
  simp at hprefix

theorem faultless_concat : Faultless Bad (front ++ [s]) ↔ Faultless Bad front ∧ ¬ Bad front s := by
  constructor
  · intro h
    exact ⟨fun earlier t ht ↦ h earlier t (ht.trans (List.prefix_append _ _)), h front s List.prefix_rfl⟩
  · rintro ⟨hfront, hs⟩ earlier t ht
    rcases List.prefix_concat_iff.mp ht with hsame | ht
    · obtain ⟨rfl, hlast⟩ := List.append_inj' hsame rfl
      cases hlast
      exact hs
    · exact hfront earlier t ht

theorem FirstFault.not_faultless (h : FirstFault Bad statements front s) : ¬ Faultless Bad statements :=
  fun hclean ↦ hclean front s h.here h.bad

end Faults

/-- How statements are entered in a roll: the number that a statement names, if any, where this number belongs, and what
is said when it belongs nowhere or when an earlier statement has taken its place. -/
structure Roll where
  named? : Statement → Option Nat
  place? : Nat → Option Nat
  placeless : Statement → Nat → Rejection
  taken : Statement → Nat → Nat → Rejection

namespace Roll

def enter (r : Roll) (entries : List (Nat × Nat)) (i : Nat) (s : Statement) : Except Rejection (List (Nat × Nat)) :=
  match r.named? s with
  | none => .ok entries
  | some n =>
    match r.place? n with
    | none => .error (r.placeless s n)
    | some place =>
      match entries.lookup place with
      | some first => .error (r.taken s n first)
      | none => .ok ((place, i) :: entries)

def enterAll (r : Roll) (entries : List (Nat × Nat)) (i : Nat) : List Statement → Except Rejection (List (Nat × Nat))
  | [] => .ok entries
  | s :: rest => r.enter entries i s >>= fun entries ↦ r.enterAll entries (i + 1) rest

def Bad (r : Roll) (front : List Statement) (s : Statement) : Prop :=
  ∃ n, r.named? s = some n ∧ (r.place? n = none ∨ ∃ t ∈ front, r.named? t = some n)

def Unambiguous (r : Roll) : Prop := ∀ m n place, r.place? m = some place → r.place? n = some place → m = n

def Enters (r : Roll) (front : List Statement) (entries : List (Nat × Nat)) : Prop :=
  ∀ place j, entries.lookup place = some j ↔
    ∃ t n, front[j]? = some t ∧ r.named? t = some n ∧ r.place? n = some place

variable {r : Roll} {front rest : List Statement} {s : Statement} {entries : List (Nat × Nat)} {n place : Nat}

theorem getElem?_concat_eq_some {t : Statement} {j : Nat} :
    (front ++ [s])[j]? = some t ↔ front[j]? = some t ∨ j = front.length ∧ s = t := by
  rcases Nat.lt_trichotomy j front.length with hlt | rfl | hgt
  · rw [List.getElem?_append_left hlt]
    simp [Nat.ne_of_lt hlt]
  · simp
  · have hfront : front.length ≤ j := Nat.le_of_lt hgt
    simp [List.getElem?_append_right hfront, List.getElem?_eq_none hfront, Nat.ne_of_gt hgt,
      Nat.sub_ne_zero_of_lt hgt]

theorem Enters.skip (h : r.Enters front entries) (hs : r.named? s = none) : r.Enters (front ++ [s]) entries := by
  intro place j
  rw [h place j]
  constructor
  · rintro ⟨t, n, ht, hn, hplace⟩
    exact ⟨t, n, getElem?_concat_eq_some.mpr (.inl ht), hn, hplace⟩
  · rintro ⟨t, n, ht, hn, hplace⟩
    rcases getElem?_concat_eq_some.mp ht with ht | ⟨-, rfl⟩
    · exact ⟨t, n, ht, hn, hplace⟩
    · rw [hs] at hn
      cases hn

theorem Enters.add (h : r.Enters front entries) (hs : r.named? s = some n) (hn : r.place? n = some place)
    (hnew : entries.lookup place = none) : r.Enters (front ++ [s]) ((place, front.length) :: entries) := by
  intro other j
  rw [List.lookup_cons]
  constructor
  · intro hlookup
    split at hlookup
    · next hother =>
      cases hlookup
      cases eq_of_beq hother
      exact ⟨s, n, getElem?_concat_eq_some.mpr (.inr ⟨rfl, rfl⟩), hs, hn⟩
    · obtain ⟨t, m, ht, hm, hplace⟩ := (h other j).mp hlookup
      exact ⟨t, m, getElem?_concat_eq_some.mpr (.inl ht), hm, hplace⟩
  · rintro ⟨t, m, ht, hm, hplace⟩
    rcases getElem?_concat_eq_some.mp ht with ht | ⟨rfl, rfl⟩
    · have hlookup := (h other j).mpr ⟨t, m, ht, hm, hplace⟩
      have hne : other ≠ place := by
        rintro rfl
        rw [hnew] at hlookup
        cases hlookup
      rw [beq_false_of_ne hne]
      exact hlookup
    · rw [hs] at hm
      cases hm
      rw [hn] at hplace
      cases hplace
      simp

inductive Cites (r : Roll) (front : List Statement) (s : Statement) : Rejection → Prop
  | placeless {n : Nat} (named : r.named? s = some n) (place : r.place? n = none) : Cites r front s (r.placeless s n)
  | taken {n j : Nat} {t : Statement} (named : r.named? s = some n) (place : (r.place? n).isSome)
      (first : front[j]? = some t) (claimed : r.named? t = some n) : Cites r front s (r.taken s n j)

theorem enter_of_bad (hr : r.Unambiguous) (h : r.Enters front entries) (hs : r.Bad front s) :
    ∃ x, r.enter entries front.length s = .error x ∧ r.Cites front s x := by
  obtain ⟨n, hn, hbad⟩ := hs
  simp only [enter, hn]
  cases hplace : r.place? n with
  | none => exact ⟨_, rfl, .placeless hn hplace⟩
  | some place =>
    dsimp only
    cases hlookup : entries.lookup place with
    | some j =>
      obtain ⟨t, m, ht, hm, hmplace⟩ := (h place j).mp hlookup
      cases hr m n place hmplace hplace
      exact ⟨_, rfl, .taken hn (by rw [hplace]; rfl) ht hm⟩
    | none =>
      rcases hbad with hnone | ⟨t, ht, htn⟩
      · rw [hplace] at hnone
        cases hnone
      · obtain ⟨j, hj⟩ := List.getElem?_of_mem ht
        rw [(h place j).mpr ⟨t, n, hj, htn, hplace⟩] at hlookup
        cases hlookup

theorem enter_of_not_bad (h : r.Enters front entries) (hr : r.Unambiguous) (hs : ¬ r.Bad front s) :
    ∃ new, r.enter entries front.length s = .ok new ∧ r.Enters (front ++ [s]) new := by
  unfold enter
  cases hn : r.named? s with
  | none => exact ⟨entries, rfl, h.skip hn⟩
  | some n =>
    dsimp only
    cases hplace : r.place? n with
    | none => exact absurd ⟨n, hn, .inl hplace⟩ hs
    | some place =>
      dsimp only
      cases hlookup : entries.lookup place with
      | some j =>
        obtain ⟨t, m, ht, hm, hmplace⟩ := (h place j).mp hlookup
        cases hr m n place hmplace hplace
        exact absurd ⟨_, hn, .inr ⟨t, List.mem_of_getElem? ht, hm⟩⟩ hs
      | none => exact ⟨_, rfl, h.add hn hplace hlookup⟩

/-- Either all statements are entered, or the first that offends is reported. -/
theorem enterAll_cases (hr : r.Unambiguous) (h : r.Enters front entries) (hfront : Faultless r.Bad front) :
    (Faultless r.Bad (front ++ rest) ∧ ∃ new, r.enterAll entries front.length rest = .ok new) ∨
      ∃ earlier s x, FirstFault r.Bad (front ++ rest) earlier s ∧ r.Cites earlier s x ∧
        r.enterAll entries front.length rest = .error x := by
  induction rest generalizing front entries with
  | nil =>
    rw [List.append_nil]
    exact .inl ⟨hfront, entries, rfl⟩
  | cons s rest ih =>
    by_cases hs : r.Bad front s
    · obtain ⟨x, hx, hcites⟩ := enter_of_bad hr h hs
      refine .inr ⟨front, s, x, ⟨?_, hs, hfront⟩, hcites, ?_⟩
      · exact ⟨rest, List.append_assoc _ _ _⟩
      · rw [enterAll, hx]
        rfl
    · obtain ⟨new, hnew, henters⟩ := enter_of_not_bad h hr hs
      have hrest := ih henters (faultless_concat.mpr ⟨hfront, hs⟩)
      rw [List.append_assoc, List.length_append] at hrest
      rw [enterAll, hnew]
      exact hrest

theorem enterAll_spec (hr : r.Unambiguous) (statements : List Statement) :
    (Faultless r.Bad statements ∧ ∃ new, r.enterAll [] 0 statements = .ok new) ∨
      ∃ earlier s x, FirstFault r.Bad statements earlier s ∧ r.Cites earlier s x ∧
        r.enterAll [] 0 statements = .error x := by
  have hnone : r.Enters [] [] := by
    intro place j
    simp
  exact enterAll_cases hr hnone faultless_nil

theorem faultless_iff {statements : List Statement} :
    Faultless r.Bad statements ↔
      (∀ s ∈ statements, ∀ n, r.named? s = some n → (r.place? n).isSome) ∧
        statements.Pairwise fun s t ↦ ∀ n, r.named? s = some n → r.named? t ≠ some n := by
  induction statements using List.reverseRecOn with
  | nil => exact ⟨fun _ ↦ ⟨by simp, .nil⟩, fun _ ↦ faultless_nil⟩
  | append_singleton front s ih =>
    rw [faultless_concat, ih]
    constructor
    · rintro ⟨⟨hplaces, hdistinct⟩, hs⟩
      constructor
      · intro t ht n hn
        rcases List.mem_append.mp ht with ht | ht
        · exact hplaces t ht n hn
        · cases List.mem_singleton.mp ht
          exact Option.isSome_iff_ne_none.mpr fun hnone ↦ hs ⟨n, hn, .inl hnone⟩
      · refine List.pairwise_append.mpr ⟨hdistinct, List.pairwise_singleton _ _, ?_⟩
        intro t ht u hu n hn hn'
        cases List.mem_singleton.mp hu
        exact hs ⟨n, hn', .inr ⟨t, ht, hn⟩⟩
    · rintro ⟨hplaces, hdistinct⟩
      obtain ⟨hfront, -, hapart⟩ := List.pairwise_append.mp hdistinct
      refine ⟨⟨fun t ht ↦ hplaces t (List.mem_append_left _ ht), hfront⟩, ?_⟩
      rintro ⟨n, hn, hnone | ⟨t, ht, hn'⟩⟩
      · have hsome := hplaces s (List.mem_append_right _ List.mem_cons_self) n hn
        rw [hnone] at hsome
        cases hsome
      · exact hapart t ht s List.mem_cons_self n hn' hn

end Roll

section Checks

variable {statements : List Statement}

structure WellLabelled (statements : List Statement) : Prop where
  inRange : ∀ s ∈ statements, ∀ n, s.header.label = some n → 1 ≤ n ∧ n ≤ 65535
  distinct : DistinctLabels statements

/-- A label that is out of range, or that an earlier statement carries. -/
def BadLabel (front : List Statement) (s : Statement) : Prop :=
  ∃ n, s.header.label = some n ∧ (¬ (1 ≤ n ∧ n ≤ 65535) ∨ ∃ t ∈ front, t.header.label = some n)

structure WellAimed (statements : List Statement) : Prop where
  found : ∀ s ∈ statements, ∀ n, s.body = .comeFrom n → ∃ t ∈ statements, t.header.label = some n
  distinct : statements.Pairwise fun s t ↦ ∀ n, s.body = .comeFrom n → t.body ≠ .comeFrom n

/-- A `COME FROM` whose target is missing, or named by an earlier one. -/
def BadTarget (statements front : List Statement) (s : Statement) : Prop :=
  ∃ n, s.body = .comeFrom n ∧ ((∀ t ∈ statements, t.header.label ≠ some n) ∨ ∃ t ∈ front, t.body = .comeFrom n)

def labelRoll : Roll where
  named? s := s.header.label
  place? n := (Label.ofNat? n).map (·.value)
  placeless := .labelOutOfRange
  taken := .labelRepeated

def targetRoll (statements : List Statement) : Roll where
  named? s := s.body.origin?
  place? := positionOf? statements
  placeless := .noTarget
  taken := .targetTaken

theorem labelRoll_place_isSome_iff {n : Nat} : (labelRoll.place? n).isSome ↔ 1 ≤ n ∧ n ≤ 65535 := by
  rw [labelRoll, Option.isSome_map, Option.isSome_iff_ne_none, Ne, Label.ofNat?_eq_none_iff]
  omega

theorem targetRoll_place_isSome_iff {n : Nat} :
    ((targetRoll statements).place? n).isSome ↔ ∃ t ∈ statements, t.header.label = some n := by
  simp [targetRoll, positionOf?]

theorem labelRoll_unambiguous : labelRoll.Unambiguous := by
  intro m n place hm hn
  obtain ⟨l, hl, rfl⟩ := Option.map_eq_some_iff.mp hm
  obtain ⟨k, hk, hplace⟩ := Option.map_eq_some_iff.mp hn
  rw [← Label.ofNat?_eq_some_iff.mp hl, ← Label.ofNat?_eq_some_iff.mp hk, hplace]

theorem targetRoll_unambiguous : (targetRoll statements).Unambiguous := by
  intro m n place hm hn
  obtain ⟨hlt, hlabel, -⟩ := List.findIdx?_eq_some_iff_getElem.mp hm
  obtain ⟨_, hlabel', -⟩ := List.findIdx?_eq_some_iff_getElem.mp hn
  exact Option.some.inj ((eq_of_beq hlabel).symm.trans (eq_of_beq hlabel'))

theorem checkLabels_eq (entries : List (Nat × Nat)) (i : Nat) (statements : List Statement) :
    checkLabels entries i statements = labelRoll.enterAll entries i statements >>= fun _ ↦ .ok () := by
  induction statements generalizing entries i with
  | nil => rfl
  | cons s rest ih =>
    simp only [checkLabels, Roll.enterAll, Roll.enter, labelRoll]
    cases s.header.label with
    | none => exact ih entries (i + 1)
    | some n =>
      dsimp only
      cases hn : Label.ofNat? n with
      | none => rfl
      | some l =>
        dsimp only [Option.isNone, Option.map]
        rw [Label.ofNat?_eq_some_iff.mp hn]
        cases entries.lookup n with
        | some first => rfl
        | none => exact ih ((n, i) :: entries) (i + 1)

theorem claimTargets_eq (entries : List (Nat × Nat)) (i : Nat) (rest : List Statement) :
    claimTargets statements entries i rest = (targetRoll statements).enterAll entries i rest := by
  induction rest generalizing entries i with
  | nil => rfl
  | cons s rest ih =>
    simp only [claimTargets, Roll.enterAll, Roll.enter, targetRoll]
    cases s.body with
    | comeFrom n =>
      dsimp only [Body.origin?]
      cases positionOf? statements n with
      | none => rfl
      | some place =>
        dsimp only
        cases entries.lookup place with
        | some first => rfl
        | none => exact ih ((place, i) :: entries) (i + 1)
    | _ => exact ih entries (i + 1)

theorem bad_labelRoll : labelRoll.Bad = BadLabel := by
  funext front s
  simp only [Roll.Bad, BadLabel, ← Option.not_isSome_iff_eq_none, labelRoll_place_isSome_iff]
  rfl

theorem bad_targetRoll : (targetRoll statements).Bad = BadTarget statements := by
  funext front s
  simp only [Roll.Bad, BadTarget, ← Option.not_isSome_iff_eq_none, targetRoll_place_isSome_iff, not_exists, not_and]
  simp only [targetRoll, Script.origin?_eq_some_iff]

theorem faultless_badLabel : Faultless BadLabel statements ↔ WellLabelled statements := by
  rw [← bad_labelRoll, Roll.faultless_iff]
  simp only [labelRoll_place_isSome_iff]
  exact ⟨fun ⟨hrange, hdistinct⟩ ↦ ⟨hrange, hdistinct⟩, fun ⟨hrange, hdistinct⟩ ↦ ⟨hrange, hdistinct⟩⟩

theorem faultless_badTarget : Faultless (BadTarget statements) statements ↔ WellAimed statements := by
  rw [← bad_targetRoll, Roll.faultless_iff]
  simp only [targetRoll_place_isSome_iff]
  simp only [targetRoll, Ne, Script.origin?_eq_some_iff]
  exact ⟨fun ⟨hfound, hdistinct⟩ ↦ ⟨hfound, hdistinct⟩, fun ⟨hfound, hdistinct⟩ ↦ ⟨hfound, hdistinct⟩⟩

theorem labels_cases (statements : List Statement) :
    (WellLabelled statements ∧ checkLabels [] 0 statements = .ok ()) ∨
      ∃ front s x, FirstFault BadLabel statements front s ∧ labelRoll.Cites front s x ∧
        checkLabels [] 0 statements = .error x := by
  have hcases := labelRoll.enterAll_spec labelRoll_unambiguous statements
  rw [bad_labelRoll] at hcases
  rw [checkLabels_eq]
  rcases hcases with ⟨hclean, new, hnew⟩ | ⟨front, s, x, hfirst, hcites, hx⟩
  · rw [hnew]
    exact .inl ⟨faultless_badLabel.mp hclean, rfl⟩
  · rw [hx]
    exact .inr ⟨front, s, x, hfirst, hcites, rfl⟩

theorem targets_cases (statements : List Statement) :
    (WellAimed statements ∧ ∃ claims, claimTargets statements [] 0 statements = .ok claims) ∨
      ∃ front s x, FirstFault (BadTarget statements) statements front s ∧ (targetRoll statements).Cites front s x ∧
        claimTargets statements [] 0 statements = .error x := by
  have hcases := (targetRoll statements).enterAll_spec targetRoll_unambiguous statements
  rw [bad_targetRoll] at hcases
  rw [claimTargets_eq]
  rcases hcases with ⟨hclean, hok⟩ | herror
  · exact .inl ⟨faultless_badTarget.mp hclean, hok⟩
  · exact .inr herror

def pleases (statements : List Statement) : Nat := statements.countP (·.header.please)

/-- Of more than three statements at least a fifth say `PLEASE`, and less than seven in twenty. -/
def WellMannered (polite : Bool) (statements : List Statement) : Prop :=
  polite = false ∨ statements.length ≤ 3 ∨
    statements.length ≤ 5 * pleases statements ∧ 20 * pleases statements < 7 * statements.length

theorem politeness_lt_iff (h : 0 < statements.length) :
    politeness statements < 20 ↔ 5 * pleases statements < statements.length := by
  rw [politeness, Nat.div_lt_iff_lt_mul h, ← pleases]
  omega

theorem lt_politeness_iff (h : 0 < statements.length) :
    34 < politeness statements ↔ 7 * statements.length ≤ 20 * pleases statements := by
  rw [politeness, Nat.lt_iff_add_one_le, Nat.le_div_iff_mul_le h, ← pleases]
  omega

theorem checkManners_cases (statements : List Statement) :
    (WellMannered true statements ∧ checkManners statements = .ok ()) ∨
      ¬ WellMannered true statements ∧
        checkManners statements = .error (if 5 * pleases statements < statements.length then
          .rude (politeness statements) else .obsequious (politeness statements)) := by
  unfold checkManners
  dsimp only
  by_cases hshort : statements.length ≤ 3
  · rw [if_pos hshort]
    exact .inl ⟨.inr (.inl hshort), rfl⟩
  have hpositive : 0 < statements.length := by omega
  have hlow := politeness_lt_iff hpositive
  have hhigh := lt_politeness_iff hpositive
  rw [if_neg hshort]
  by_cases hrude : 5 * pleases statements < statements.length
  · rw [if_pos (hlow.mpr hrude), if_pos hrude]
    refine .inr ⟨?_, rfl⟩
    rintro (hoff | hfew | ⟨henough, -⟩)
    · cases hoff
    · omega
    · omega
  rw [if_neg (mt hlow.mp hrude), if_neg hrude]
  by_cases hfawning : 7 * statements.length ≤ 20 * pleases statements
  · rw [if_pos (hhigh.mpr hfawning)]
    refine .inr ⟨?_, rfl⟩
    rintro (hoff | hfew | ⟨-, hmodest⟩)
    · cases hoff
    · omega
    · omega
  · rw [if_neg (mt hhigh.mp hfawning)]
    exact .inl ⟨.inr (.inr ⟨by omega, by omega⟩), rfl⟩

theorem manners_cases (polite : Bool) (statements : List Statement) :
    (WellMannered polite statements ∧ (if polite then checkManners statements else .ok ()) = .ok ()) ∨
      ¬ WellMannered polite statements ∧
        (if polite then checkManners statements else .ok ()) =
          .error (if 5 * pleases statements < statements.length then
            .rude (politeness statements) else .obsequious (politeness statements)) := by
  cases polite with
  | false => exact .inl ⟨.inl rfl, rfl⟩
  | true => exact checkManners_cases statements

end Checks

structure Acceptable (polite : Bool) (statements : List Statement) : Prop where
  labels : WellLabelled statements
  manners : WellMannered polite statements
  targets : WellAimed statements

/-- What is reported of a program that is not acceptable: labels come before manners, and manners before targets. -/
inductive Refused (polite : Bool) (statements : List Statement) (d : Diagnostic) : Prop
  | label {front : List Statement} {s : Statement} {n : Nat} (first : FirstFault BadLabel statements front s)
      (carried : s.header.label = some n) (code : d.code = if 1 ≤ n ∧ n ≤ 65535 then .e182 else .e197)
      (located : d.location = some ⟨s.position.line, s.position.column, none⟩)
  | manners (labels : WellLabelled statements) (offence : ¬ WellMannered polite statements)
      (code : d.code = if 5 * pleases statements < statements.length then .e079 else .e099)
      (unlocated : d.location = none)
  | target {front : List Statement} {s : Statement} {n : Nat} (labels : WellLabelled statements)
      (manners : WellMannered polite statements) (first : FirstFault (BadTarget statements) statements front s)
      (aimed : s.body = .comeFrom n)
      (code : d.code = .e444 ∧ (∀ t ∈ statements, t.header.label ≠ some n) ∨
        d.code = .e555 ∧ ∃ t ∈ front, t.body = .comeFrom n)
      (located : d.location = some ⟨s.position.line, s.position.column, none⟩)

section Acceptance

variable {polite : Bool} {statements front : List Statement} {s : Statement} {x : Rejection}

theorem Refused.of_label (hfirst : FirstFault BadLabel statements front s) (hcites : labelRoll.Cites front s x) :
    Refused polite statements x.diagnostic := by
  cases hcites with
  | @placeless n hn hplace =>
    have hrange := mt labelRoll_place_isSome_iff.mpr (Option.not_isSome_iff_eq_none.mpr hplace)
    exact .label hfirst hn (if_neg hrange).symm rfl
  | @taken n j t hn hplace ht hclaimed =>
    exact .label hfirst hn (if_pos (labelRoll_place_isSome_iff.mp hplace)).symm rfl

theorem Refused.of_target (hlabels : WellLabelled statements) (hmanners : WellMannered polite statements)
    (hfirst : FirstFault (BadTarget statements) statements front s) (hcites : (targetRoll statements).Cites front s x) :
    Refused polite statements x.diagnostic := by
  cases hcites with
  | @placeless n hn hplace =>
    have hmissing := mt targetRoll_place_isSome_iff.mpr (Option.not_isSome_iff_eq_none.mpr hplace)
    refine .target hlabels hmanners hfirst (Script.origin?_eq_some_iff.mp hn) (.inl ⟨rfl, ?_⟩) rfl
    intro t ht hlabel
    exact hmissing ⟨t, ht, hlabel⟩
  | @taken n j t hn hplace ht hclaimed =>
    have hclaim : ∃ u ∈ front, u.body = .comeFrom n :=
      ⟨t, List.mem_of_getElem? ht, Script.origin?_eq_some_iff.mp hclaimed⟩
    exact .target hlabels hmanners hfirst (Script.origin?_eq_some_iff.mp hn) (.inr ⟨rfl, hclaim⟩) rfl

namespace Program

theorem analyze_eq_bind (polite : Bool) (statements : List Statement) :
    analyze polite statements =
      (checkLabels [] 0 statements >>= fun _ ↦
        (if polite then checkManners statements else .ok ()) >>= fun _ ↦
          claimTargets statements [] 0 statements >>= fun claims ↦
            .ok ⟨statements, assignSlots (abstentions statements) 0 statements,
              (List.range statements.length).map fun i ↦ claims.lookup i⟩) := by
  cases polite <;> rfl

/-- Either a program is acceptable and passes the checks, or it fails them and is refused for its first offence. -/
theorem analyze_cases (polite : Bool) (statements : List Statement) :
    (Acceptable polite statements ∧ ∃ p, analyze polite statements = .ok p) ∨
      ¬ Acceptable polite statements ∧
        ∃ x, analyze polite statements = .error x ∧ Refused polite statements x.diagnostic := by
  rw [analyze_eq_bind]
  rcases labels_cases statements with ⟨hlabels, hok⟩ | ⟨front, s, x, hfirst, hcites, herror⟩
  swap
  · refine .inr ⟨?_, x, by rw [herror]; rfl, .of_label hfirst hcites⟩
    exact fun h ↦ hfirst.not_faultless (faultless_badLabel.mpr h.labels)
  rw [hok]
  rcases manners_cases polite statements with ⟨hmanners, hok⟩ | ⟨hoffence, herror⟩
  swap
  · refine .inr ⟨fun h ↦ hoffence h.manners, _, by rw [herror]; rfl, .manners hlabels hoffence ?_ ?_⟩
    · split <;> rfl
    · split <;> rfl
  rw [hok]
  rcases targets_cases statements with ⟨htargets, claims, hok⟩ | ⟨front, s, x, hfirst, hcites, herror⟩
  · rw [hok]
    exact .inl ⟨⟨hlabels, hmanners, htargets⟩, _, rfl⟩
  · refine .inr ⟨?_, x, by rw [herror]; rfl, .of_target hlabels hmanners hfirst hcites⟩
    exact fun h ↦ hfirst.not_faultless (faultless_badTarget.mpr h.targets)

theorem members_pairwise (p : Program) (g : Gerund) : (p.members g).Pairwise (· < ·) := by
  have hindices : p.statements.zipIdx.Pairwise fun x y ↦ x.2 < y.2 := by
    rw [← List.pairwise_map, List.zipIdx_map_snd]
    exact List.pairwise_lt_range'
  refine hindices.filterMap _ ?_
  intro x y hlt i hi j hj
  obtain ⟨-, hi⟩ := Option.ite_none_right_eq_some.mp hi
  obtain ⟨-, hj⟩ := Option.ite_none_right_eq_some.mp hj
  cases hi
  cases hj
  exact hlt

end Program

namespace Chunk

theorem compile_of_analyze {setting : Setting} {p : Program} (h : Program.analyze setting.polite statements = .ok p) :
    ∃ result, compile setting statements = .ok result := by
  rw [compile, h]
  cases setting.optimize with
  | false => exact ⟨_, rfl⟩
  | true => exact ⟨_, rfl⟩

/-- A program compiles just if its labels, its manners and its targets are right, and what is wrong first is reported
otherwise. In a compiled program a label leads to the statement that carries it, a class lists its statements in order,
and the trapdoor of a statement is the `COME FROM` that names its label. -/
theorem compile_exactly_acceptable (setting : Setting) (statements : List Statement) :
    ((∃ result, compile setting statements = .ok result) ↔ Acceptable setting.polite statements) ∧
      (¬ Acceptable setting.polite statements →
        ∃ x, compile setting statements = .error x ∧ Refused setting.polite statements x.diagnostic) ∧
      ∀ c log, compile setting statements = .ok (c, log) →
        ∃ p, Program.analyze setting.polite statements = .ok p ∧
          (∀ n i, p.position? n = some i ↔ ∃ s, statements[i]? = some s ∧ s.header.label = some n) ∧
          (∀ g, (p.members g).Pairwise (· < ·) ∧
            ∀ i, i ∈ p.members g ↔ ∃ s, statements[i]? = some s ∧ s.body.gerund? = some g) ∧
          ∀ i j, p.trapdoors.getD i none = some j ↔
            ∃ s t n, statements[i]? = some s ∧ s.header.label = some n ∧
              statements[j]? = some t ∧ t.body = .comeFrom n := by
  refine ⟨?_, ?_, ?_⟩
  · rcases Program.analyze_cases setting.polite statements with ⟨hgood, p, hp⟩ | ⟨hbad, x, hx, -⟩
    · exact iff_of_true (compile_of_analyze hp) hgood
    · refine iff_of_false ?_ hbad
      rintro ⟨result, hresult⟩
      rw [compile, hx] at hresult
      cases hresult
  · intro hbad
    rcases Program.analyze_cases setting.polite statements with ⟨hgood, -⟩ | ⟨-, x, hx, hrefused⟩
    · exact absurd hgood hbad
    · refine ⟨x, ?_, hrefused⟩
      rw [compile, hx]
      rfl
  · intro c log hcompile
    obtain ⟨p, hp, -⟩ := compile_eq_ok hcompile
    obtain ⟨rfl, hsound⟩ := Program.analyze_ok hp
    refine ⟨p, hp, ?_, ?_, hsound.trapdoor_iff⟩
    · intro n i
      exact positionOf?_eq_some_iff hsound.distinct
    · intro g
      exact ⟨p.members_pairwise g, fun i ↦ Program.mem_members⟩

def rivals : List Statement :=
  [⟨0, ⟨1, 1, 0⟩, { label := some 10 }, .giveUp, "(10) DO GIVE UP"⟩,
    ⟨1, ⟨2, 1, 16⟩, {}, .comeFrom 10, "DO COME FROM (10)"⟩, ⟨2, ⟨3, 1, 34⟩, {}, .comeFrom 10, "DO COME FROM (10)"⟩]

theorem compile_exactly_acceptable_rivals :
    (∃ c log, compile { name := "rivals" } (rivals.take 2) = .ok (c, log) ∧
      ∃ p, Program.analyze true (rivals.take 2) = .ok p ∧ p.trapdoors.getD 0 none = some 1) ∧
      ¬ Acceptable true rivals ∧
        ∃ x, compile { name := "rivals" } rivals = .error x ∧ Refused true rivals x.diagnostic := by
  constructor
  · obtain ⟨c, log, hcompile⟩ : ∃ c log, compile { name := "rivals" } (rivals.take 2) = .ok (c, log) := ⟨_, _, rfl⟩
    obtain ⟨-, -, hsuccess⟩ := compile_exactly_acceptable { name := "rivals" } (rivals.take 2)
    obtain ⟨p, hp, -, -, htrapdoor⟩ := hsuccess c log hcompile
    exact ⟨c, log, hcompile, p, hp, (htrapdoor 0 1).mpr ⟨_, _, 10, rfl, rfl, rfl, rfl⟩⟩
  · have hrivals : ¬ Acceptable true rivals := by
      intro h
      have hdistinct := List.pairwise_iff_getElem.mp h.targets.distinct
      exact hdistinct 1 2 (by decide) (by decide) (by decide) 10 rfl rfl
    exact ⟨hrivals, (compile_exactly_acceptable { name := "rivals" } rivals).2.1 hrivals⟩

end Chunk

end Acceptance

end Intercal
