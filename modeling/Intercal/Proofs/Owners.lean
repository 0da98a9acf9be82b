import Intercal.Proofs.Projects
import Mathlib.Data.Set.Card

namespace Intercal

theorem Table.keys_put_of_absent {κ α : Type} [DecidableEq κ] {k : κ} {entries : List (κ × α)}
    (h : find k entries = none) (a : α) : (put k a entries).map (·.1) = entries.map (·.1) ++ [k] := by
  induction entries with
  | nil => rfl
  | cons e entries ih =>
    obtain ⟨k', a'⟩ := e
    by_cases hk : k' = k
    · simp [find, hk] at h
    · simp only [find, hk, if_false] at h
      simp [put, hk, ih h]

namespace Linkage

variable {k : Linkage} {l : Label}

def linkAll (k : Linkage) : List Component → Linkage × List Nat
  | [] => (k, [])
  | c :: cs =>
    let (all, gains) := linkAll (k.link c).1 cs
    (all, k.gain c :: gains)

theorem owner?_linkAll (k : Linkage) (cs : List Component) (l : Label) :
    (k.linkAll cs).1.owner? l = (k.owner? l).or (cs.find? fun c ↦ l ∈ c.exports) := by
  induction cs generalizing k with
  | nil => simp [linkAll]
  | cons c cs ih =>
    simp only [linkAll, ih, owner?_link, List.find?_cons]
    by_cases hl : l ∈ c.exports
    · simp [hl]
    · simp [hl]

def fresh (owners : Table Label Component) (ls : List Label) : Finset Label :=
  ls.toFinset.filter fun l ↦ owners.get? l = none

theorem length_claim (c : Component) (owners : Table Label Component) (ls : List Label) :
    (claim c owners ls).1.entries.length = owners.entries.length + (claim c owners ls).2.1 := by
  induction ls generalizing owners with
  | nil => rfl
  | cons l ls ih =>
    unfold claim
    cases howner : owners.get? l with
    | some first => exact ih owners
    | none =>
      have hlength : (owners.insert l c).entries.length = owners.entries.length + 1 := by
        simpa [Table.insert] using congrArg List.length (Table.keys_put_of_absent howner c)
      have hrest := ih (owners.insert l c)
      rw [hlength, Nat.add_right_comm] at hrest
      exact hrest

theorem owned_claim (c : Component) (owners : Table Label Component) (ls : List Label) :
    (claim c owners ls).2.1 = (fresh owners ls).card := by
  induction ls generalizing owners with
  | nil => rfl
  | cons l ls ih =>
    unfold claim
    cases howner : owners.get? l with
    | some first =>
      have hfresh : fresh owners (l :: ls) = fresh owners ls := by
        rw [fresh, List.toFinset_cons, Finset.filter_insert, howner, if_neg (by simp)]
        rfl
      rw [hfresh]
      exact ih owners
    | none =>
      have hfresh : fresh owners (l :: ls) = insert l (fresh (owners.insert l c) ls) := by
        ext x
        by_cases hx : x = l
        · simp [fresh, hx, howner]
        · simp [fresh, hx, Table.get?_insert_of_ne owners (Ne.symm hx)]
      have hnotMem : l ∉ fresh (owners.insert l c) ls := by simp [fresh]
      dsimp only
      rw [hfresh, Finset.card_insert_of_notMem hnotMem, ih]

/-- A component gets the labels that had no owner and have it as their owner now. -/
theorem gain_eq_ncard (k : Linkage) (c : Component) :
    k.gain c = Set.ncard { l | k.owner? l = none ∧ (k.link c).1.owner? l = some c } := by
  have hset : { l | k.owner? l = none ∧ (k.link c).1.owner? l = some c } = (fresh k.owners c.exports : Set Label) := by
    ext l
    simp only [Set.mem_ofPred_eq, owner?_link, fresh, Finset.coe_filter, List.mem_toFinset]
    constructor
    · rintro ⟨hnone, hsome⟩
      rw [hnone, Option.none_or] at hsome
      split at hsome
      · next hl => exact ⟨hl, hnone⟩
      · cases hsome
    · rintro ⟨hl, hnone⟩
      have howner : k.owner? l = none := hnone
      exact ⟨howner, by rw [howner, Option.none_or, if_pos hl]⟩
  rw [hset, Set.ncard_coe_finset]
  exact owned_claim c k.owners c.exports

theorem size_link (k : Linkage) (c : Component) : (k.link c).1.size = k.size + k.gain c :=
  length_claim c k.owners c.exports

theorem sum_gains (k : Linkage) (cs : List Component) : k.size + (k.linkAll cs).2.sum = (k.linkAll cs).1.size := by
  induction cs generalizing k with
  | nil => rfl
  | cons c cs ih =>
    have hrest := ih (k.link c).1
    simp only [linkAll, List.sum_cons]
    rw [size_link] at hrest
    omega

theorem length_labels (k : Linkage) : k.labels.length = k.size := by
  rw [labels, List.length_mergeSort, List.length_map, size]

def Distinct (owners : Table Label Component) : Prop := (owners.entries.map (·.1)).Nodup

theorem Distinct.claim {owners : Table Label Component} (h : Distinct owners) (c : Component) (ls : List Label) :
    Distinct (claim c owners ls).1 := by
  induction ls generalizing owners with
  | nil => exact h
  | cons l ls ih =>
    unfold Linkage.claim
    cases howner : owners.get? l with
    | some first => exact ih h
    | none =>
      refine ih ?_
      have habsent : l ∉ owners.entries.map (·.1) := by
        rw [← Table.find_isSome_iff]
        have hfind : Table.find l owners.entries = none := howner
        simp [hfind]
      rw [Distinct, Table.insert, Table.keys_put_of_absent howner]
      exact h.append (List.nodup_singleton l) (by simpa using habsent)

theorem Distinct.linkAll (h : Distinct k.owners) (cs : List Component) : Distinct (k.linkAll cs).1.owners := by
  induction cs generalizing k with
  | nil => exact h
  | cons c cs ih => exact ih (h.claim c c.exports)

theorem Distinct.labels_increasing (h : Distinct k.owners) : k.labels.Pairwise (·.value < ·.value) := by
  have hsorted : k.labels.Pairwise fun a b ↦ decide (a.value ≤ b.value) = true := by
    apply List.pairwise_mergeSort
    · intro a b c hab hbc
      simp only [decide_eq_true_eq] at hab hbc ⊢
      omega
    · intro a b
      simp only [Bool.or_eq_true, decide_eq_true_eq]
      omega
  have hnodup : k.labels.Nodup := (List.mergeSort_perm _ _).nodup_iff.mpr h
  refine (hsorted.and hnodup).imp fun {a b} hab ↦ ?_
  obtain ⟨hle, hne⟩ := hab
  have hvalue : a.value ≠ b.value := fun heq ↦ hne (by cases a; cases b; simpa using heq)
  simp only [decide_eq_true_eq] at hle
  omega

theorem mem_labels_linkAll {cs : List Component} : l ∈ (empty.linkAll cs).1.labels ↔ ∃ c ∈ cs, l ∈ c.exports := by
  rw [mem_labels_iff, owner?_linkAll]
  simp [owner?, empty]

end Linkage

structure FirstExporting (libraries : List Part) (l : Label) (number : Nat) (part : Part) : Prop where
  here : libraries[number]? = some part
  exported : l ∈ part.chunk.exports
  first {j : Nat} {other : Part} : j < number → libraries[j]? = some other → l ∉ other.chunk.exports

def firstOwner (libraries : List Part) (l : Label) : Option Component :=
  (libraries.zipIdx.find? fun x ↦ l ∈ x.1.chunk.exports).map fun x ↦ x.1.component x.2

section FirstOwner

variable {libraries : List Part} {l : Label} {part : Part} {number : Nat} {c : Component}

theorem firstOwner_concat (libraries : List Part) (part : Part) (l : Label) :
    firstOwner (libraries ++ [part]) l = (firstOwner libraries l).or
      (if l ∈ part.chunk.exports then some (part.component libraries.length) else none) := by
  rw [firstOwner, List.zipIdx_append, List.find?_append, Option.map_or, firstOwner]
  congr 1
  by_cases hl : l ∈ part.chunk.exports <;> simp [hl]

theorem firstOwner_eq_none_iff : firstOwner libraries l = none ↔ ∀ part ∈ libraries, l ∉ part.chunk.exports := by
  rw [firstOwner, Option.map_eq_none_iff, List.find?_eq_none]
  constructor
  · intro h part hpart
    obtain ⟨number, hnumber⟩ := List.mem_iff_getElem?.mp hpart
    simpa using h (part, number) (List.mk_mem_zipIdx_iff_getElem?.mpr hnumber)
  · rintro h ⟨part, number⟩ hpart
    simpa using h part (List.fst_mem_of_mem_zipIdx hpart)

theorem firstOwner_eq_some (h : firstOwner libraries l = some c) :
    ∃ number part, FirstExporting libraries l number part ∧ c = part.component number := by
  obtain ⟨⟨part, number⟩, hfind, rfl⟩ := Option.map_eq_some_iff.mp h
  obtain ⟨hexported, i, hi, hx, hfirst⟩ := List.find?_eq_some_iff_getElem.mp hfind
  rw [List.getElem_zipIdx, Nat.zero_add] at hx
  cases hx
  refine ⟨number, _, ⟨List.getElem?_eq_getElem _, by simpa using hexported, fun {j other} hj hother ↦ ?_⟩, rfl⟩
  obtain ⟨hlt, rfl⟩ := List.getElem?_eq_some_iff.mp hother
  have hnot := hfirst j hj
  simpa [List.getElem_zipIdx] using hnot

end FirstOwner

namespace Machine

variable {m : Machine} {s t : State} {libraries : List Part} {number : Nat} {statements : List Statement} {l : Label}

inductive Landing where
  | statement (site : Site)
  | routine
  | nowhere

/-- What becomes of a `NEXT` that leads there: control goes on at the statement with a frame pushed, or the routine of
the system library is carried out, or the program gets lost. -/
def land (m : Machine) (s : State) (line : Nat) (l : Label) : Landing → Turn
  | .statement site => (m.next s line l site).1
  | .routine => (m.act s line (SystemLibrary.call l.value) fun _ s ↦ (.going s.done, [])).1
  | .nowhere => (s.fail (m.report s line (.lost l.value))).1

/-- Where a `NEXT` has to lead from the given statements, which are those of one part, if these libraries were loaded
before it and the system library is there. -/
inductive Destination (m : Machine) (libraries : List Part) (number : Nat) (statements : List Statement) (l : Label) :
    Landing → Prop
  | own {index : Nat} {st : Statement} (here : statements[index]? = some st)
      (label : st.header.label = some l.value) :
      Destination m libraries number statements l (.statement ⟨number, index⟩)
  | library {owner index : Nat} {part : Part} {x : Instruction}
      (elsewhere : ∀ st ∈ statements, st.header.label ≠ some l.value) (first : FirstExporting libraries l owner part)
      (loaded : m.part owner = part) (here : part.chunk.instructions[index]? = some x) (label : x.label = some l) :
      Destination m libraries number statements l (.statement ⟨owner, index⟩)
  | system (elsewhere : ∀ st ∈ statements, st.header.label ≠ some l.value)
      (unexported : ∀ part ∈ libraries, l ∉ part.chunk.exports) (routine : l.value ∈ SystemLibrary.routines) :
      Destination m libraries number statements l .routine
  | nowhere (elsewhere : ∀ st ∈ statements, st.header.label ≠ some l.value)
      (unexported : ∀ part ∈ libraries, l ∉ part.chunk.exports) (unknown : l.value ∉ SystemLibrary.routines) :
      Destination m libraries number statements l .nowhere

def NextsLand (m : Machine) (libraries : List Part) (number : Nat) (statements : List Statement) : Prop :=
  ∀ s t i st l, s.site.part = number → m.Performs s t i → statements[s.site.index]? = some st →
    st.body = .next (Label.value l) →
    ∃ landing, m.Destination libraries number statements l landing ∧ m.turn s = m.land t i.line l landing

theorem Performs.turn {i : Instruction} (h : m.Performs s t i) : m.turn s = (m.perform t i.line i.op).1 := by
  rw [Machine.turn, step, h.entering, if_neg Bool.false_ne_true, enterStatement_some h.here, h.admitted,
    if_neg Bool.false_ne_true, h.lucky]

end Machine

def ownerAfter (libraries : List Part) (l : Label) : Option Component :=
  (firstOwner libraries l).or (if l ∈ Component.system.exports then some .system else none)

structure Part.Placed (libraries : List Part) (statements : List Statement) (part : Part) : Prop where
  compiled : ∃ setting log, setting.linked = part.linkage.labels ∧
    Chunk.compile setting statements = .ok (part.chunk, log)
  owner? (l : Label) : part.linkage.owner? l = ownerAfter libraries l

namespace Part.Placed

variable {libraries : List Part} {statements : List Statement} {part : Part} {l : Label}

/-- What a `NEXT` was compiled to: a place among its own statements if there is one with the label, else a linked
label if it has an owner. -/
theorem lowered (h : part.Placed libraries statements) {index : Nat} {i : Instruction} {st : Statement}
    (hi : part.chunk.instructions[index]? = some i) (hst : statements[index]? = some st)
    (hbody : st.body = .next l.value) :
    (∃ entry st', i.op = .next l entry ∧ statements[entry]? = some st' ∧ st'.header.label = some l.value) ∨
      (∀ st ∈ statements, st.header.label ≠ some l.value) ∧
        ((i.op = .nextLinked l ∧ (ownerAfter libraries l).isSome) ∨
          i.op = .lost l.value ∧ ownerAfter libraries l = none) := by
  obtain ⟨setting, log, hlinked, hcompile⟩ := h.compiled
  obtain ⟨p, hanalyze, rfl, hmirrors, -⟩ := Chunk.compile_mirrors hcompile
  obtain ⟨-, hsound⟩ := Program.analyze_ok hanalyze
  have hlinked_iff : setting.linked.contains l = true ↔ (ownerAfter libraries l).isSome := by
    rw [List.contains_iff_mem, hlinked, Linkage.mem_labels_iff, h.owner?]
  rw [hmirrors.getElem?, hst, Option.map_some, Option.some_inj] at hi
  have hlower : Chunk.lowerOp p setting.linked st = Chunk.lowerNext p setting.linked l.value := by
    simp only [Chunk.lowerOp, hbody]
  subst hi
  simp only [Chunk.lowerNext, Label.ofNat?_value] at hlower
  cases hposition : p.position? l.value with
  | some entry =>
    obtain ⟨st', hst', hlabel⟩ := (positionOf?_eq_some_iff hsound.distinct).mp hposition
    rw [hposition] at hlower
    exact .inl ⟨entry, st', (Chunk.compiled_op_eq_iff setting p rfl).mpr hlower, hst', hlabel⟩
  | none =>
    rw [hposition] at hlower
    refine .inr ⟨fun st' hst' hlabel ↦ ?_, ?_⟩
    · obtain ⟨j, hj⟩ := List.mem_iff_getElem?.mp hst'
      have hsome := (positionOf?_eq_some_iff hsound.distinct).mpr ⟨st', hj, hlabel⟩
      cases hposition.symm.trans hsome
    · dsimp only at hlower
      split at hlower
      · next hcontains =>
        exact .inl ⟨(Chunk.compiled_op_eq_iff setting p rfl).mpr hlower, hlinked_iff.mp hcontains⟩
      · next hcontains =>
        refine .inr ⟨(Chunk.compiled_op_eq_iff setting p rfl).mpr hlower, ?_⟩
        rwa [hlinked_iff, Option.not_isSome_iff_eq_none] at hcontains

/-- The machine has the part and, under their numbers, the libraries, whose labels are all in their places. -/
theorem nextsLand {m : Machine} {number : Nat} (h : part.Placed libraries statements) (hpart : m.part number = part)
    (hlibraries : ∀ k library, libraries[k]? = some library → m.part k = library)
    (hexports : ∀ library ∈ libraries, ∀ l ∈ library.chunk.exports, ∃ index x,
      library.chunk.entry? l = some index ∧ library.chunk.instructions[index]? = some x ∧ x.label = some l) :
    m.NextsLand libraries number statements := by
  intro s t i st l hnumber hperforms hst hbody
  have hi : part.chunk.instructions[s.site.index]? = some i := by
    have hhere := hperforms.here
    rwa [Machine.instruction?, Machine.chunk, hnumber, hpart] at hhere
  have hsite : t.site = s.site := by rw [Machine.draw_eq hperforms.lucky]
  have howner : (m.part t.site.part).linkage.owner? l = ownerAfter libraries l := by
    rw [hsite, hnumber, hpart, h.owner?]
  rw [hperforms.turn]
  rcases h.lowered hi hst hbody with ⟨entry, st', hop, hst', hlabel⟩ | ⟨helsewhere, ⟨hop, hsome⟩ | ⟨hop, hnone⟩⟩
  · refine ⟨_, .own hst' hlabel, ?_⟩
    rw [hop, Machine.perform, hsite, hnumber]
    rfl
  · have hcall (c : Component) (hc : ownerAfter libraries l = some c) :
        (m.perform t i.line i.op).1 = (m.call t i.line l c).1 := by
      simp only [hop, Machine.perform, howner, hc]
    cases hfirst : firstOwner libraries l with
    | some c =>
      have hc : ownerAfter libraries l = some c := by rw [ownerAfter, hfirst, Option.some_or]
      obtain ⟨k, library, hexporting, rfl⟩ := firstOwner_eq_some hfirst
      obtain ⟨index, x, hentry, hx, hlabel⟩ :=
        hexports library (List.mem_of_getElem? hexporting.here) l hexporting.exported
      have hloaded := hlibraries k library hexporting.here
      refine ⟨_, .library helsewhere hexporting hloaded hx hlabel, ?_⟩
      simp only [hcall _ hc, Machine.call, Part.component, hloaded, hentry]
      rfl
    | none =>
      have hc : ownerAfter libraries l = if l ∈ Component.system.exports then some .system else none := by
        rw [ownerAfter, hfirst, Option.none_or]
      rw [hc] at hsome
      split at hsome
      · next hl =>
        rw [if_pos hl] at hc
        refine ⟨_, .system helsewhere (firstOwner_eq_none_iff.mp hfirst) (Component.mem_system_exports.mp hl), ?_⟩
        rw [hcall _ hc]
        rfl
      · cases hsome
  · rw [ownerAfter, Option.or_eq_none_iff] at hnone
    obtain ⟨hfirst, hsystem⟩ := hnone
    have hl : l ∉ Component.system.exports := by
      intro hl
      rw [if_pos hl] at hsystem
      cases hsystem
    refine ⟨_, .nowhere helsewhere (firstOwner_eq_none_iff.mp hfirst) (mt Component.mem_system_exports.mpr hl), ?_⟩
    rw [hop]
    rfl

end Part.Placed

namespace Project

variable {p q : Project}

/-- Labels belong to the first library that was loaded with them, and each library sees those before it. -/
structure Ordered (p : Project) : Prop where
  owner? (l : Label) : p.linkage.owner? l = firstOwner p.loader.libraries.toList l
  library {number : Nat} {part : Part} : p.loader.libraries[number]? = some part →
    ∃ path text log, Loader.compile p.options part.linkage path text = .ok (part, log) ∧
      (p.options.systemLibrary → part.Placed (p.loader.libraries.toList.take number) (Statement.parse text))

theorem Ordered.ofOptions (options : Options) : (ofOptions options).Ordered where
  owner? _ := rfl
  library h := nomatch h

theorem Ordered.visible_owner? (h : p.Ordered) (hsystem : p.options.systemLibrary) (l : Label) :
    p.visible.1.owner? l = ownerAfter p.loader.libraries.toList l := by
  rw [visible, if_pos hsystem, Linkage.owner?_link, h.owner?, ownerAfter]

/-- A library that is linked once more has no label that is still free. -/
theorem Ordered.relink_owner? (h : p.Ordered) {number : Nat} (hlt : number < p.loader.libraries.size) (l : Label) :
    (p.linkage.link (p.loader.component number)).1.owner? l = p.linkage.owner? l := by
  rw [Linkage.owner?_link]
  split
  · next hl =>
    have hmem : p.loader.part number ∈ p.loader.libraries.toList := by
      rw [Loader.part, Array.getD_eq_getD_getElem?, Array.getElem?_eq_getElem hlt, Option.getD_some]
      exact Array.mem_toList_iff.mpr (Array.getElem_mem hlt)
    cases hfirst : firstOwner p.loader.libraries.toList l with
    | none => exact absurd hl (firstOwner_eq_none_iff.mp hfirst _ hmem)
    | some c => rw [h.owner?, hfirst, Option.some_or]
  · exact Option.or_none

theorem Ordered.load {σ : Type} {disk : Disk (StateM σ)} {path : String} {world : σ} {events : List Event}
    (hp : p.Sound) (h : p.Ordered) (hq : ((p.loadLibrary disk path).run world).1 = .ok (q, events)) :
    q.Ordered := by
  obtain ⟨number, loader, log, hload, rfl⟩ := loadLibrary_eq_ok hq
  rcases Loader.load_eq_ok hload with ⟨rfl, canonical, hnumber⟩ | ⟨rfl, path, text, part, log, canonical, hcompile, rfl⟩
  · have hlt := hp.loaded (mem_of_lookup hnumber)
    exact ⟨fun l ↦ (h.relink_owner? hlt l).trans (h.owner? l), h.library⟩
  · obtain ⟨hlinkage, log', hchunk⟩ := Loader.compile_eq_ok hcompile
    refine ⟨fun l ↦ ?_, fun {number other} hother ↦ ?_⟩
    · have hpart : Loader.part ⟨p.loader.searchPaths, p.loader.libraries.push part,
          p.loader.loaded ++ [(canonical, p.loader.libraries.size)]⟩ p.loader.libraries.size = part := by
        rw [Loader.part, Array.getD_eq_getD_getElem?, Array.getElem?_push_size, Option.getD_some]
      simp only [Loader.component, hpart, Linkage.owner?_link, h.owner?, Array.toList_push, firstOwner_concat,
        Array.length_toList]
      rfl
    · rw [Array.getElem?_push] at hother
      split at hother
      · next hnumber =>
        cases hother
        refine ⟨path, text, log, by rw [hlinkage]; exact hcompile, fun hsystem ↦ ⟨⟨_, log', ?_, hchunk⟩, fun l ↦ ?_⟩⟩
        · rw [hlinkage]
          rfl
        · rw [hlinkage, h.visible_owner? hsystem, hnumber, Array.toList_push, ← Array.length_toList, List.take_left']
          rfl
      · obtain ⟨hlt, -⟩ := Array.getElem?_eq_some_iff.mp hother
        obtain ⟨path', text', log', hcompile', hplaced⟩ := h.library hother
        refine ⟨path', text', log', hcompile', fun hsystem ↦ ?_⟩
        rw [Array.toList_push, List.take_append_of_le_length (by rw [Array.length_toList]; omega)]
        exact hplaced hsystem

theorem Leads.ordered (h : Leads p q) (hp : p.Sound) (hordered : p.Ordered) : q.Ordered := by
  induction h with
  | refl => exact hordered
  | @tail q r hq hmoves ih =>
    cases hmoves with
    | load disk loaded => exact Ordered.load (Leads.sound hq hp) ih loaded
    | run compiled store maxDraws events n => exact ⟨ih.owner?, ih.library⟩

theorem Moves.loaded (h : Moves p q) : p.loader.loaded ⊆ q.loader.loaded := by
  cases h with
  | load disk loaded =>
    obtain ⟨number, loader, log, hload, rfl⟩ := loadLibrary_eq_ok loaded
    rcases Loader.load_eq_ok hload with ⟨rfl, -⟩ | ⟨-, path, text, part, log, canonical, -, rfl⟩
    · exact List.Subset.refl _
    · exact List.subset_append_left _ _
  | run compiled store maxDraws events n => exact List.Subset.refl _

theorem Leads.loaded (h : Leads p q) : p.loader.loaded ⊆ q.loader.loaded := by
  induction h with
  | refl => exact List.Subset.refl _
  | tail _ hmoves ih => exact List.Subset.trans ih hmoves.loaded

theorem loadEach_leads {σ : Type} {disk : Disk (StateM σ)} {paths : List String} {world : σ} {events : List Event}
    (h : ((p.loadEach disk paths).run world).1 = .ok (q, events)) : p.Leads q := by
  induction paths generalizing p world events with
  | nil =>
    cases h
    exact .refl
  | cons path paths ih =>
    obtain ⟨_ | ⟨r, log⟩, world', hload, h⟩ := exists_of_bind h
    · cases h
    obtain ⟨_ | ⟨r', more⟩, later, heach, h⟩ := exists_of_bind h
    · cases h
    cases h
    exact .head (.load disk hload) (ih heach)

end Project

namespace Loader

variable {σ : Type} {disk : Disk (StateM σ)} {loader : Loader} {path name : String} {world : σ}

/-- The name of the file that a path leads to, by which a library is known. -/
def fileOf (disk : Disk (StateM σ)) (loader : Loader) (path : String) : StateM σ (Option String) := do
  match ← loader.resolve disk path with
  | .error _ => return none
  | .ok found =>
    match ← disk.canonical found with
    | .error _ => return none
    | .ok name => return some name

theorem run_bind_eq {α β : Type} (a : StateM σ α) (k : α → StateM σ β) (world : σ) :
    (a >>= k).run world = (k (a.run world).1).run (a.run world).2 := rfl

/-- Once the file is known, loading goes by its name. -/
theorem load_of_fileOf {o : Options} {visible : Linkage} (hname : ((loader.fileOf disk path).run world).1 = some name) :
    (∀ number, loader.loaded.lookup name = some number → ∃ events,
      ((loader.load disk o visible path).run world).1 = .ok (number, loader, events)) ∧
    ∀ number after events, ((loader.load disk o visible path).run world).1 = .ok (number, after, events) →
      ∃ number, (name, number) ∈ Loader.loaded after := by
  rw [fileOf, run_bind_eq] at hname
  rw [load, run_bind_eq]
  generalize (loader.resolve disk path).run world = resolved at hname ⊢
  obtain ⟨_ | found, world'⟩ := resolved
  · cases hname
  dsimp only at hname ⊢
  rw [run_bind_eq] at hname ⊢
  generalize (disk.canonical found).run world' = canonical at hname ⊢
  obtain ⟨_ | name', later⟩ := canonical
  · cases hname
  cases hname
  dsimp only
  cases hlookup : loader.loaded.lookup name with
  | some number =>
    refine ⟨fun number' hnumber' ↦ ?_, fun number' after events h ↦ ?_⟩
    · cases hnumber'
      exact ⟨_, rfl⟩
    · cases h
      exact ⟨number, mem_of_lookup hlookup⟩
  | none =>
    constructor
    · intro number' hnumber'
      cases hnumber'
    · intro number' after events h
      obtain ⟨_ | text, last, -, h⟩ := exists_of_bind h
      · cases h
      dsimp only at h
      split at h <;> cases h
      exact ⟨_, List.mem_append_right _ List.mem_cons_self⟩

end Loader

namespace Project

variable {p q : Project} {σ : Type} {disk : Disk (StateM σ)} {path name : String} {world : σ}

theorem loaded_of_loadLibrary {events : List Event} (hname : ((p.loader.fileOf disk path).run world).1 = some name)
    (h : ((p.loadLibrary disk path).run world).1 = .ok (q, events)) : ∃ number, (name, number) ∈ q.loader.loaded := by
  obtain ⟨number, loader, log, hload, rfl⟩ := loadLibrary_eq_ok h
  exact (Loader.load_of_fileOf hname).2 number loader log hload

/-- A library that is loaded already is found again, and nothing leads anywhere else than before. -/
theorem loadLibrary_again {number : Nat} (hp : p.Sound) (hordered : p.Ordered)
    (hname : ((p.loader.fileOf disk path).run world).1 = some name) (hloaded : (name, number) ∈ p.loader.loaded) :
    ∃ q events, ((p.loadLibrary disk path).run world).1 = .ok (q, events) ∧ q.loader = p.loader ∧
      ∀ l, q.visible.1.owner? l = p.visible.1.owner? l := by
  have hsome : (p.loader.loaded.lookup name).isSome :=
    List.lookup_isSome_iff.mpr ⟨(name, number), hloaded, beq_self_eq_true name⟩
  obtain ⟨number, hnumber⟩ := Option.isSome_iff_exists.mp hsome
  obtain ⟨log, hload⟩ := (Loader.load_of_fileOf hname).1 number hnumber
  have hagain : ∃ q events, ((p.loadLibrary disk path).run world).1 = .ok (q, events) ∧ q.options = p.options ∧
      q.loader = p.loader ∧ q.linkage = (p.linkage.link (p.loader.component number)).1 := by
    rw [loadLibrary, Loader.run_bind_eq, hload]
    exact ⟨_, _, rfl, rfl, rfl, rfl⟩
  obtain ⟨q, events, hq, hoptions, hloader, hlinkage⟩ := hagain
  refine ⟨q, events, hq, hloader, fun l ↦ ?_⟩
  have howner : q.linkage.owner? l = p.linkage.owner? l := by
    rw [hlinkage, hordered.relink_owner? (hp.loaded (mem_of_lookup hnumber))]
  unfold visible
  rw [hoptions]
  split
  · rw [Linkage.owner?_link, Linkage.owner?_link, howner]
  · exact howner

theorem Sound.exports_placed (hp : p.Sound) {part : Part} (hpart : part ∈ p.loader.libraries) {l : Label}
    (hl : l ∈ part.chunk.exports) :
    ∃ index x, part.chunk.entry? l = some index ∧ part.chunk.instructions[index]? = some x ∧ x.label = some l := by
  have hresolved := hp.resolved hpart
  obtain ⟨index, hindex⟩ := Option.isSome_iff_exists.mp (hresolved.exports hl)
  obtain ⟨x, hx, hlabel⟩ := hresolved.compiled.closed.entry hindex
  exact ⟨index, x, hindex, hx, hlabel⟩

/-- A part that was compiled when some of the libraries were loaded, and has a place in the machine. -/
theorem Sound.nextsLand (hp : p.Sound) {program : Chunk} {maxDraws : Option Nat} {part : Part} {number n : Nat}
    {statements : List Statement} (hplaced : part.Placed (p.loader.libraries.toList.take n) statements)
    (hpart : (p.machine program maxDraws).part number = part) :
    (p.machine program maxDraws).NextsLand (p.loader.libraries.toList.take n) number statements := by
  have hlibrary (k : Nat) (library : Part) (hlibrary : (p.loader.libraries.toList.take n)[k]? = some library) :
      p.loader.libraries[k]? = some library := by
    rw [List.getElem?_take] at hlibrary
    split at hlibrary
    · rwa [Array.getElem?_toList] at hlibrary
    · cases hlibrary
  refine hplaced.nextsLand hpart (fun k library hk ↦ part_machine (hlibrary k library hk) program maxDraws) ?_
  intro library hmem l hl
  exact hp.exports_placed (Array.mem_toList_iff.mp (List.mem_of_mem_take hmem)) hl

theorem Ordered.placed (h : p.Ordered) (hsystem : p.options.systemLibrary) {name : String} {text : List Char}
    {program : Chunk} {log : List Event} (hcompile : p.compile name text = .ok (program, log)) :
    Part.Placed p.loader.libraries.toList (Statement.parse text) ⟨program, p.visible.1⟩ := by
  obtain ⟨setting, hlinked, hchunk⟩ := compile_eq_ok hcompile
  exact ⟨⟨setting, log, hlinked, hchunk⟩, h.visible_owner? hsystem⟩

/-- The first link wins. Of components that are linked in some order, the first with a label owns it; the labels come
in increasing order, and each component gets the labels that it is the first to have. Of a project with the system
library, however its libraries were loaded: a `NEXT` of a program or of a library leads to the part's own statement
with the label, else to the first library with it among those loaded before, else to the system library; and to load a
library once more makes no difference. -/
theorem first_link_wins :
    (∀ (cs : List Component) l, (Linkage.empty.linkAll cs).1.owner? l = cs.find? fun c ↦ l ∈ c.exports) ∧
    (∀ cs : List Component, (Linkage.empty.linkAll cs).1.labels.Pairwise (·.value < ·.value) ∧
      (∀ l, l ∈ (Linkage.empty.linkAll cs).1.labels ↔ ∃ c ∈ cs, l ∈ c.exports) ∧
      (Linkage.empty.linkAll cs).2.sum = (Linkage.empty.linkAll cs).1.labels.length) ∧
    (∀ (k : Linkage) (c : Component),
      k.gain c = Set.ncard { l | k.owner? l = none ∧ (k.link c).1.owner? l = some c }) ∧
    (∀ {σ : Type} (disk : Disk (StateM σ)) (p q : Project) others world events,
      ((p.loadLibraries disk others).run world).1 = .ok (q, events) → p.Leads q) ∧
    ∀ options (p : Project), options.systemLibrary → (ofOptions options).Leads p →
      (∀ name text program log maxDraws, p.compile name text = .ok (program, log) →
        (p.machine program maxDraws).NextsLand p.loader.libraries.toList p.loader.libraries.size
          (Statement.parse text)) ∧
      (∀ number part, p.loader.libraries[number]? = some part →
        ∃ path text log, Loader.compile p.options part.linkage path text = .ok (part, log) ∧
          ∀ program maxDraws, (p.machine program maxDraws).NextsLand (p.loader.libraries.toList.take number) number
            (Statement.parse text)) ∧
      ∀ {σ τ : Type} (disk : Disk (StateM σ)) (disk' : Disk (StateM τ)) path path' name world world' q r events,
        ((p.loader.fileOf disk path).run world).1 = some name →
        ((p.loadLibrary disk path).run world).1 = .ok (q, events) → q.Leads r →
        ((r.loader.fileOf disk' path').run world').1 = some name →
        ∃ r' events', ((r.loadLibrary disk' path').run world').1 = .ok (r', events') ∧ r'.loader = r.loader ∧
          ∀ l, r'.visible.1.owner? l = r.visible.1.owner? l := by
  refine ⟨fun cs l ↦ ?_, fun cs ↦ ⟨?_, fun l ↦ Linkage.mem_labels_linkAll, ?_⟩, Linkage.gain_eq_ncard,
    fun disk p q others world events ↦ loadEach_leads, fun options p hsystem hp ↦ ?_⟩
  · rw [Linkage.owner?_linkAll]
    exact Option.none_or
  · have hempty : Linkage.Distinct Linkage.empty.owners := List.nodup_nil
    exact (hempty.linkAll cs).labels_increasing
  · rw [Linkage.length_labels, ← Linkage.sum_gains]
    exact (Nat.zero_add _).symm
  have hsound : p.Sound := Leads.sound hp (.ofOptions options)
  have hordered : p.Ordered := Leads.ordered hp (.ofOptions options) (.ofOptions options)
  have hsystem : p.options.systemLibrary := by
    rw [(Leads.extends hp).options]
    exact hsystem
  refine ⟨fun name text program log maxDraws hcompile ↦ ?_, fun number part hpart ↦ ?_, ?_⟩
  · have hplaced := hordered.placed hsystem hcompile
    have hall : p.loader.libraries.toList.take p.loader.libraries.size = p.loader.libraries.toList := by
      rw [← Array.length_toList, List.take_length]
    rw [← hall] at hplaced ⊢
    exact hsound.nextsLand hplaced (part_machine_size p program maxDraws)
  · obtain ⟨path, text, log, hcompile, hplaced⟩ := hordered.library hpart
    exact ⟨path, text, log, hcompile, fun program maxDraws ↦
      hsound.nextsLand (hplaced hsystem) (part_machine hpart program maxDraws)⟩
  · intro σ τ disk disk' path path' name world world' q r events hname hq hr hagain
    obtain ⟨number, hloaded⟩ := loaded_of_loadLibrary hname hq
    have hlater : (ofOptions options).Leads r := (hp.tail (.load disk hq)).trans hr
    exact loadLibrary_again (Leads.sound hlater (.ofOptions options))
      (Leads.ordered hlater (.ofOptions options) (.ofOptions options)) hagain (Leads.loaded hr hloaded)

/-- The label is that of a routine of the system library, but the library on the shelf was first. -/
theorem first_link_wins_shelf :
    ∃ q events program log t, ((plain.loadLibrary shelf "a.i").run ()).1 = .ok (q, events) ∧
      q.compile "b.i" "DO (1000) NEXT".toList = .ok (program, log) ∧
      (q.machine program none).turn (q.start program {}) = .going t ∧ t.site.part = 0 := by
  obtain ⟨q, events, hq, hexports⟩ := loadLibrary_shelf_exports
  obtain ⟨library, hlibraries, hexported⟩ := List.map_eq_singleton_iff.mp hexports
  have hleads : plain.Leads q := .single (.load shelf hq)
  have hoptions := (Leads.extends hleads).options
  obtain ⟨log, hprogram⟩ := compile_caller_of hoptions ((Leads.extends hleads).visible (by decide))
  obtain ⟨-, -, -, -, hproject⟩ := first_link_wins
  have hnexts := (hproject { optimize := false } q rfl hleads).1 _ _ _ _ none hprogram
  rw [parse_caller] at hnexts
  have hhere := part_machine_size q (caller (.nextLinked ⟨1000, by decide, by decide⟩)) none
  generalize hop : Op.nextLinked ⟨1000, by decide, by decide⟩ = op at hprogram hnexts hhere
  have hperforms : (q.machine (caller op) none).Performs (q.start (caller op) {})
      { q.start (caller op) {} with draws := 1 } ⟨op, {}, none, none, 1⟩ := by
    refine ⟨rfl, ?_, rfl, rfl⟩
    rw [Machine.instruction?, Machine.chunk, start, hhere]
    rfl
  obtain ⟨landing, hdestination, hturn⟩ :=
    hnexts _ _ _ _ ⟨1000, by decide, by decide⟩ rfl hperforms rfl rfl
  have hunexported : ¬ ∀ part ∈ q.loader.libraries.toList, ⟨1000, by decide, by decide⟩ ∉ part.chunk.exports := by
    simp [hlibraries, hexported]
  cases hdestination with
  | @own index st here label =>
    have hst := List.mem_singleton.mp (List.mem_of_getElem? here)
    rw [hst] at label
    cases label
  | system elsewhere unexported routine => exact absurd unexported hunexported
  | nowhere elsewhere unexported unknown => exact absurd unexported hunexported
  | @library owner index part x elsewhere first loaded here label =>
    have howner : owner = 0 := by
      have hsome := first.here
      rw [hlibraries] at hsome
      obtain ⟨hlt, -⟩ := List.getElem?_eq_some_iff.mp hsome
      simpa using hlt
    have hdepth : (q.machine (caller op) none).maxDepth = 80 := by
      rw [machine, hoptions]
      rfl
    have hgoing : ∃ t, (q.machine (caller op) none).turn (q.start (caller op) {}) = .going t ∧ t.site.part = owner := by
      rw [hturn]
      simp only [Machine.land, Machine.next, hdepth]
      exact ⟨_, rfl, rfl⟩
    obtain ⟨t, ht, hsite⟩ := hgoing
    exact ⟨q, events, caller op, log, t, hq, hprogram, ht, hsite.trans howner⟩

end Project

end Intercal
