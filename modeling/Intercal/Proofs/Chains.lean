import Intercal.Proofs.Closure
import Intercal.Proofs.Lowering
import Mathlib.Data.List.Chain
import Mathlib.Data.List.Nodup
import Mathlib.Logic.Relation

namespace Intercal

open Relation

def Op.isComeFrom : Op → Bool
  | .comeFrom => true
  | _ => false

namespace Chunk

variable {c : Chunk} {switches : Switches} {chance : Nat → Bool} {i j k target : Nat} {passed : List Nat}

def trapdoor? (c : Chunk) (i : Nat) : Option Trapdoor := c.instructions[i]?.bind (·.trapdoor)

def Links (c : Chunk) (i j : Nat) : Prop := ∃ t, c.trapdoor? i = some t ∧ t.comeFrom = j

def OnCycle (c : Chunk) (i : Nat) : Prop := TransGen c.Links i i

def IsComeFrom (c : Chunk) (i : Nat) : Prop := ∃ x, c.instructions[i]? = some x ∧ x.op = .comeFrom

def comeFroms (c : Chunk) : Nat := c.instructions.toList.countP (·.op.isComeFrom)

/-- How control leaves the statement at `i` when chance answers in the given order: the `COME FROM`s that it passes
through, and where it goes on. Chance is asked once for each trapdoor that is not abstained from. -/
inductive Falls (c : Chunk) (switches : Switches) : (Nat → Bool) → Nat → List Nat → Nat → Prop
  | level {chance : Nat → Bool} {i : Nat} (here : c.trapdoor? i = none) : Falls c switches chance i [] (i + 1)
  | abstained {chance : Nat → Bool} {i : Nat} {t : Trapdoor} (here : c.trapdoor? i = some t)
      (blocked : switches.blocks t.slot = true) : Falls c switches chance i [] (i + 1)
  | spared {chance : Nat → Bool} {i : Nat} {t : Trapdoor} (here : c.trapdoor? i = some t)
      (live : switches.blocks t.slot = false) (unlucky : chance 0 = false) : Falls c switches chance i [] (i + 1)
  | caught {chance : Nat → Bool} {i target : Nat} {t : Trapdoor} {passed : List Nat} (here : c.trapdoor? i = some t)
      (live : switches.blocks t.slot = false) (lucky : chance 0 = true)
      (rest : Falls c switches (fun n ↦ chance (n + 1)) t.comeFrom passed target) :
      Falls c switches chance i (t.comeFrom :: passed) target

theorem Falls.isChain (h : c.Falls switches chance i passed target) : List.IsChain c.Links (i :: passed) := by
  induction h with
  | level | abstained | spared => exact .singleton _
  | caught here _ _ _ ih => exact List.isChain_cons_cons.mpr ⟨⟨_, here, rfl⟩, ih⟩

structure Linked (c : Chunk) : Prop where
  injective {i j k : Nat} : c.Links i k → c.Links j k → i = j
  isComeFrom {i j : Nat} : c.Links i j → c.IsComeFrom j

theorem compile_linked {setting : Setting} {statements : List Statement} {log : List Event}
    (h : compile setting statements = .ok (c, log)) : c.Linked := by
  obtain ⟨p, hanalyze, -, hmirrors, hclosed⟩ := compile_mirrors h
  obtain ⟨-, hsound⟩ := Program.analyze_ok hanalyze
  have horigin {i j : Nat} (hlink : c.Links i j) :
      ∃ s t n, p.statements[i]? = some s ∧ s.header.label = some n ∧ p.statements[j]? = some t ∧
        t.body = .comeFrom n := by
    obtain ⟨t, ht, rfl⟩ := hlink
    obtain ⟨x, hx, hxt⟩ := Option.bind_eq_some_iff.mp ht
    rw [hmirrors.getElem?, Option.map_eq_some_iff] at hx
    obtain ⟨s, hs, rfl⟩ := hx
    rw [compiled_trapdoor] at hxt
    obtain ⟨origin, horigin, hxt⟩ := Option.bind_eq_some_iff.mp hxt
    obtain ⟨u, hu, hxt⟩ := Option.bind_eq_some_iff.mp hxt
    cases hxt
    exact (hsound.trapdoor_iff i origin).mp horigin
  refine ⟨fun hi hj ↦ ?_, fun {i j} hlink ↦ ?_⟩
  · obtain ⟨s, t, n, hs, hn, ht, hbody⟩ := horigin hi
    obtain ⟨s', t', n', hs', hn', ht', hbody'⟩ := horigin hj
    rw [ht] at ht'
    cases ht'
    rw [hbody] at hbody'
    cases hbody'
    exact hsound.position_unique hs hn hs' hn'
  · obtain ⟨t, ht, rfl⟩ := hlink
    obtain ⟨x, hx, hxt⟩ := Option.bind_eq_some_iff.mp ht
    exact hclosed.trapdoor (Array.mem_of_getElem? hx) hxt

namespace Linked

theorem isComeFrom_of_onCycle (h : c.Linked) (hi : c.OnCycle i) : c.IsComeFrom i := by
  obtain ⟨j, -, hlink⟩ := TransGen.tail'_iff.mp hi
  exact h.isComeFrom hlink

/-- The way into a cycle is from within. -/
theorem onCycle_of_links (h : c.Linked) (hlink : c.Links i j) (hj : c.OnCycle j) : c.OnCycle i := by
  obtain ⟨k, hreach, hback⟩ := TransGen.tail'_iff.mp hj
  rw [h.injective hback hlink] at hreach
  exact TransGen.head' hlink hreach

theorem reach_of_mem (hchain : List.IsChain c.Links (i :: passed)) (hj : j ∈ passed) : TransGen c.Links i j := by
  induction passed generalizing i with
  | nil => exact absurd hj List.not_mem_nil
  | cons k passed ih =>
    obtain ⟨hlink, hrest⟩ := List.isChain_cons_cons.mp hchain
    rcases List.mem_cons.mp hj with rfl | hj
    · exact .single hlink
    · exact .head hlink (ih hrest hj)

theorem isComeFrom_of_mem (h : c.Linked) (hchain : List.IsChain c.Links (i :: passed)) (hj : j ∈ passed) :
    c.IsComeFrom j := by
  obtain ⟨k, -, hlink⟩ := TransGen.tail'_iff.mp (reach_of_mem hchain hj)
  exact h.isComeFrom hlink

theorem nodup (h : c.Linked) (hi : ¬ c.OnCycle i) (hchain : List.IsChain c.Links (i :: passed)) :
    (i :: passed).Nodup := by
  induction passed generalizing i with
  | nil => exact List.nodup_singleton i
  | cons j passed ih =>
    obtain ⟨hlink, hrest⟩ := List.isChain_cons_cons.mp hchain
    have hj : ¬ c.OnCycle j := fun hcycle ↦ hi (h.onCycle_of_links hlink hcycle)
    refine List.nodup_cons.mpr ⟨fun hmem ↦ ?_, ih hj hrest⟩
    exact hi (reach_of_mem hchain hmem)

theorem length_le_countP {α : Type} {p : α → Bool} {as : List α} {positions : List Nat} (hnodup : positions.Nodup)
    (h : ∀ i ∈ positions, ∃ a, as[i]? = some a ∧ p a) : positions.length ≤ as.countP p := by
  have hsubset : positions ⊆ (as.zipIdx.filter fun x ↦ p x.1).map (·.2) := by
    intro i hi
    obtain ⟨a, ha, hp⟩ := h i hi
    exact List.mem_map.mpr ⟨(a, i), List.mem_filter.mpr ⟨List.mk_mem_zipIdx_iff_getElem?.mpr ha, hp⟩, rfl⟩
  calc positions.length ≤ ((as.zipIdx.filter fun x ↦ p x.1).map (·.2)).length := hnodup.length_le_of_subset hsubset
    _ = as.zipIdx.countP fun x ↦ p x.1 := by rw [List.length_map, List.countP_eq_length_filter]
    _ = (as.zipIdx.map (·.1)).countP p := by rw [List.countP_map]; rfl
    _ = as.countP p := by rw [List.zipIdx_map_fst]

theorem length_le (h : c.Linked) (hi : ¬ c.OnCycle i) (hchain : List.IsChain c.Links (i :: passed)) :
    passed.length ≤ c.comeFroms := by
  apply length_le_countP (List.nodup_cons.mp (h.nodup hi hchain)).2
  intro j hj
  obtain ⟨x, hx, hop⟩ := h.isComeFrom_of_mem hchain hj
  exact ⟨x, by rw [Array.getElem?_toList, hx], by rw [hop]; rfl⟩

/-- Where all chains are bounded, going along the links is well-founded. -/
theorem acc_of_bounded {n : Nat} (hn : ∀ passed, List.IsChain c.Links (i :: passed) → passed.length ≤ n) :
    Acc (flip c.Links) i := by
  induction n generalizing i with
  | zero =>
    refine ⟨i, fun j hlink ↦ ?_⟩
    have hone := hn [j] (List.isChain_cons_cons.mpr ⟨hlink, .singleton j⟩)
    exact absurd hone (Nat.not_succ_le_zero 0)
  | succ n ih =>
    refine ⟨i, fun j hlink ↦ ih fun passed hchain ↦ ?_⟩
    exact Nat.le_of_succ_le_succ (hn (j :: passed) (List.isChain_cons_cons.mpr ⟨hlink, hchain⟩))

theorem acc (h : c.Linked) (hi : ¬ c.OnCycle i) : Acc (flip c.Links) i :=
  acc_of_bounded fun _ ↦ h.length_le hi

end Linked

/-- Whatever chance says, control goes on somewhere. -/
theorem Falls.exists (switches : Switches) (chance : Nat → Bool) (hacc : Acc (flip c.Links) i) :
    ∃ passed target, c.Falls switches chance i passed target := by
  induction hacc generalizing chance with
  | intro i _ ih =>
    cases here : c.trapdoor? i with
    | none => exact ⟨[], i + 1, .level here⟩
    | some t =>
      cases live : switches.blocks t.slot with
      | true => exact ⟨[], i + 1, .abstained here live⟩
      | false =>
        cases answer : chance 0 with
        | false => exact ⟨[], i + 1, .spared here live answer⟩
        | true =>
          obtain ⟨passed, target, hrest⟩ := ih t.comeFrom ⟨t, here, rfl⟩ fun n ↦ chance (n + 1)
          exact ⟨t.comeFrom :: passed, target, .caught here live answer hrest⟩

end Chunk

namespace Machine

variable {m : Machine} {s : State}

/-- The machine leaves a statement as control falls from there, with the answers that its store gives: a step for each
`COME FROM` on the way, and one to go on. -/
def Falls (m : Machine) (s : State) : Prop :=
  ∃ chance passed target store draws, (m.chunk s).Falls s.switch chance s.site.index passed target ∧
    advance m.turn (passed.length + 1) s =
      .going { s with site := ⟨s.site.part, target⟩, leaving := false, store, draws }

theorem falls (hm : m.maxDraws = none) (hs : s.leaving = true) (hacc : Acc (flip (m.chunk s).Links) s.site.index) :
    m.Falls s := by
  generalize hi : s.site.index = i at hacc
  generalize hc : m.chunk s = c at hacc
  induction hacc generalizing s with
  | intro i _ ih =>
    subst hi hc
    have hturn : m.turn s = (m.leaveStatement s).1 := by rw [turn, step, if_pos hs]
    have hhere : (m.instruction? s).bind (·.trapdoor) = (m.chunk s).trapdoor? s.site.index := rfl
    rw [leaveStatement_unlimited hm, hhere] at hturn
    have hend {store : Store} {draws : Nat}
        (hfalls : (m.chunk s).Falls s.switch (fun _ ↦ false) s.site.index [] (s.site.index + 1))
        (hgoing : m.turn s =
          .going { s with site := ⟨s.site.part, s.site.index + 1⟩, leaving := false, store, draws }) : m.Falls s :=
      ⟨_, _, _, store, draws, hfalls, by simp only [List.length_nil, advance, hgoing]⟩
    cases here : (m.chunk s).trapdoor? s.site.index with
    | none =>
      rw [here] at hturn
      exact hend (.level here) hturn
    | some t =>
      rw [here] at hturn
      cases live : s.switch.blocks t.slot with
      | true =>
        simp only [live, if_true] at hturn
        exact hend (.abstained here live) hturn
      | false =>
        simp only [live, Bool.false_eq_true, if_false] at hturn
        rcases answer : s.store.chance t.percent with ⟨_ | _, store⟩
        · rw [answer] at hturn
          exact hend (.spared here live rfl) hturn
        · rw [answer] at hturn
          obtain ⟨chance, passed, target, store', draws, hfalls, hadvance⟩ :=
            ih t.comeFrom ⟨t, here, rfl⟩ (s := { s with store, draws := s.draws + 1 }.goTo t.comeFrom) hs rfl rfl
          refine ⟨Nat.rec (motive := fun _ ↦ Bool) true fun n _ ↦ chance n, t.comeFrom :: passed, target, store', draws,
            .caught here live rfl hfalls, ?_⟩
          rw [List.length_cons, advance, hturn]
          exact hadvance

end Machine

/-- In a compiled chunk only `COME FROM`s can lie on a cycle of trapdoors. From anywhere else control goes on once it
passed through some `COME FROM`s, through none of them twice, whatever is abstained from and whatever chance says, and
the machine goes on as well. -/
theorem Chunk.falls_past_comeFroms {setting : Setting} {statements : List Statement} {c : Chunk} {log : List Event}
    (h : compile setting statements = .ok (c, log)) :
    (∀ i, c.OnCycle i → c.IsComeFrom i) ∧
    ∀ i, ¬ c.IsComeFrom i ∨ ¬ c.OnCycle i →
      (∀ switches chance, ∃ passed target, c.Falls switches chance i passed target) ∧
      (∀ switches chance passed target, c.Falls switches chance i passed target →
        passed.length ≤ c.comeFroms ∧ passed.Nodup ∧ ∀ j ∈ passed, c.IsComeFrom j) ∧
      ∀ (m : Machine) (s : Machine.State), m.maxDraws = none → m.chunk s = c → s.site.index = i → s.leaving = true →
        m.Falls s := by
  have hlinked := compile_linked h
  refine ⟨fun i ↦ hlinked.isComeFrom_of_onCycle, fun i hi ↦ ?_⟩
  have hcycle : ¬ c.OnCycle i := hi.elim (mt hlinked.isComeFrom_of_onCycle) id
  have hacc := hlinked.acc hcycle
  refine ⟨fun switches chance ↦ Falls.exists switches chance hacc, fun switches chance passed target hfalls ↦ ?_,
    fun m s hm hc hindex hleaving ↦ ?_⟩
  · have hchain := hfalls.isChain
    exact ⟨hlinked.length_le hcycle hchain, (List.nodup_cons.mp (hlinked.nodup hcycle hchain)).2,
      fun j ↦ hlinked.isComeFrom_of_mem hchain⟩
  · subst hc hindex
    exact Machine.falls hm hleaving hacc

def Chunk.knot : List Statement :=
  [⟨0, ⟨1, 1, 0⟩, { label := some 1 }, .comeFrom 2, ""⟩, ⟨1, ⟨2, 1, 0⟩, { label := some 2 }, .comeFrom 1, ""⟩,
    ⟨2, ⟨3, 1, 0⟩, { label := some 3 }, .giveUp, ""⟩,
    ⟨3, ⟨4, 1, 0⟩, { label := some 4, percent := 50 }, .comeFrom 3, ""⟩, ⟨4, ⟨5, 1, 0⟩, {}, .comeFrom 4, ""⟩]

theorem Chunk.falls_past_comeFroms_knot :
    ∃ c log, compile { name := "knot", optimize := false, polite := false } knot = .ok (c, log) ∧
      c.OnCycle 0 ∧ c.IsComeFrom 0 ∧ ¬ c.IsComeFrom 2 ∧ c.Falls ⟨#[]⟩ (fun _ ↦ true) 2 [3, 4] 5 ∧
      [3, 4].length ≤ c.comeFroms ∧
      ∀ (m : Machine) (s : Machine.State), m.maxDraws = none → m.chunk s = c → s.site.index = 2 → s.leaving = true →
        m.Falls s := by
  obtain ⟨c, log, hcompile, h0, h1, h2, h3, h4, hop⟩ :
      ∃ c log, compile { name := "knot", optimize := false, polite := false } knot = .ok (c, log) ∧
        c.trapdoor? 0 = some ⟨1, none, 100⟩ ∧ c.trapdoor? 1 = some ⟨0, none, 100⟩ ∧
        c.trapdoor? 2 = some ⟨3, none, 50⟩ ∧ c.trapdoor? 3 = some ⟨4, none, 100⟩ ∧ c.trapdoor? 4 = none ∧
        c.instructions[2]?.map (·.op) = some .giveUp :=
    ⟨_, _, rfl, rfl, rfl, rfl, rfl, rfl, rfl⟩
  obtain ⟨hcycle, hfalls⟩ := falls_past_comeFroms hcompile
  have hround : c.OnCycle 0 := .tail (.single ⟨_, h0, rfl⟩) ⟨_, h1, rfl⟩
  have hstart : ¬ c.IsComeFrom 2 := by
    rintro ⟨x, hx, hx'⟩
    rw [hx, Option.map_some, hx'] at hop
    cases hop
  have hpath : c.Falls ⟨#[]⟩ (fun _ ↦ true) 2 [3, 4] 5 := .caught h2 rfl rfl (.caught h3 rfl rfl (.level h4))
  obtain ⟨-, hbound, hmachine⟩ := hfalls 2 (.inl hstart)
  exact ⟨c, log, hcompile, hround, hcycle 0 hround, hstart, hpath, (hbound _ _ _ _ hpath).1, hmachine⟩

end Intercal
