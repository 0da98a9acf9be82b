import Intercal.Project
import Intercal.Proofs.Confinement
import Mathlib.Logic.Relation

namespace Intercal

variable {libraries : Array Part} {l : Label} {c : Component}

namespace Linkage

theorem get?_claim (c : Component) (owners : Table Label Component) (ls : List Label) (l : Label) :
    (claim c owners ls).1.get? l = (owners.get? l).or (if l ∈ ls then some c else none) := by
  induction ls generalizing owners with
  | nil => simp [claim]
  | cons l' ls ih =>
    unfold claim
    by_cases heq : l = l'
    · subst heq
      cases howner : owners.get? l with
      | some first => simp [ih, howner]
      | none => simp [ih]
    · cases howner : owners.get? l' with
      | some first => simp [ih, heq]
      | none => simp [ih, Table.get?_insert_of_ne _ (Ne.symm heq), heq]

theorem owner?_link (k : Linkage) (c : Component) (l : Label) :
    (k.link c).1.owner? l = (k.owner? l).or (if l ∈ c.exports then some c else none) :=
  get?_claim c k.owners c.exports l

theorem owner?_link_of_some {k : Linkage} (h : k.owner? l = some c) (c' : Component) :
    (k.link c').1.owner? l = some c := by
  rw [owner?_link, h, Option.some_or]

end Linkage

theorem getElem?_push_of_some {α : Type} {xs : Array α} {i : Nat} {x : α} (h : xs[i]? = some x) (y : α) :
    (xs.push y)[i]? = some x := by
  obtain ⟨hlt, -⟩ := Array.getElem?_eq_some_iff.mp h
  rw [Array.getElem?_push, if_neg (Nat.ne_of_lt hlt), h]

/-- The component has what the label stands for: a routine, or a statement to enter at. -/
def Component.Supplies (libraries : Array Part) (l : Label) (c : Component) : Prop :=
  match c.body with
  | .system => l.value ∈ SystemLibrary.routines
  | .library number => ∃ part index, libraries[number]? = some part ∧ part.chunk.entry? l = some index
  | .host _ => False

theorem Component.Supplies.push (h : c.Supplies libraries l) (part : Part) : c.Supplies (libraries.push part) l := by
  unfold Supplies at h ⊢
  cases hbody : c.body with
  | system => simpa only [hbody] using h
  | host routines => simp only [hbody] at h
  | library number =>
    simp only [hbody] at h ⊢
    obtain ⟨owner, index, howner, hentry⟩ := h
    exact ⟨owner, index, getElem?_push_of_some howner part, hentry⟩

def Linkage.Supplied (libraries : Array Part) (k : Linkage) : Prop :=
  ∀ l c, k.owner? l = some c → c.Supplies libraries l

namespace Linkage.Supplied

variable {k : Linkage}

theorem push (h : k.Supplied libraries) (part : Part) : k.Supplied (libraries.push part) :=
  fun l c howner ↦ (h l c howner).push part

theorem link (h : k.Supplied libraries) (hc : ∀ l ∈ c.exports, c.Supplies libraries l) :
    (k.link c).1.Supplied libraries := by
  intro l owner howner
  rw [owner?_link, Option.or_eq_some_iff] at howner
  rcases howner with howner | ⟨-, howner⟩
  · exact h l owner howner
  · split at howner <;> cases howner
    next hmem => exact hc l hmem

end Linkage.Supplied

theorem Component.mem_system_exports : l ∈ Component.system.exports ↔ l.value ∈ SystemLibrary.routines := by
  constructor
  · intro hl
    obtain ⟨n, hn, hofNat⟩ := List.mem_filterMap.mp hl
    rw [Label.ofNat?_eq_some_iff.mp hofNat]
    exact hn
  · intro hl
    exact List.mem_filterMap.mpr ⟨l.value, hl, Label.ofNat?_value l⟩

theorem Component.system_supplies (hl : l ∈ Component.system.exports) : Component.system.Supplies libraries l :=
  Component.mem_system_exports.mp hl

/-- A part whose chunk was compiled against its linkage, or an earlier state of it. -/
structure Part.Resolved (libraries : Array Part) (part : Part) : Prop where
  compiled : part.chunk.Compiled
  exports {l : Label} : l ∈ part.chunk.exports → (part.chunk.entry? l).isSome
  supplied : part.linkage.Supplied libraries
  linked {x : Instruction} {l : Label} :
    x ∈ part.chunk.instructions → x.op = .nextLinked l → (part.linkage.owner? l).isSome

namespace Part.Resolved

variable {part : Part}

theorem push (h : part.Resolved libraries) (other : Part) : part.Resolved (libraries.push other) :=
  ⟨h.compiled, h.exports, h.supplied.push other, h.linked⟩

theorem of_compile {setting : Setting} {statements : List Statement} {chunk : Chunk} {log : List Event} {k : Linkage}
    (hcompile : Chunk.compile setting statements = .ok (chunk, log)) (hsupplied : k.Supplied libraries)
    (hlinked : ∀ l ∈ setting.linked, (k.owner? l).isSome) : Part.Resolved libraries ⟨chunk, k⟩ := by
  obtain ⟨p, -, -, hmirrors, -⟩ := Chunk.compile_mirrors hcompile
  exact ⟨⟨setting, statements, log, hcompile⟩, hmirrors.entry?_of_exported, hsupplied,
    fun hx hop ↦ hlinked _ (hmirrors.linked hx hop)⟩

theorem supplies {number : Nat} (hpart : libraries[number]? = some part) (h : part.Resolved libraries)
    (hl : l ∈ (part.component number).exports) : (part.component number).Supplies libraries l := by
  obtain ⟨index, hindex⟩ := Option.isSome_iff_exists.mp (h.exports hl)
  exact ⟨part, index, hpart, hindex⟩

end Part.Resolved

theorem exists_of_bind {σ α β : Type} {a : StateM σ α} {k : α → StateM σ β} {world : σ} {b : β}
    (h : ((a >>= k).run world).1 = b) : ∃ x world', (a.run world).1 = x ∧ ((k x).run world').1 = b :=
  ⟨(a.run world).1, (a.run world).2, rfl, h⟩

/-- What the disk answers may change at any time. A library that is loaded has a number already, or it is compiled and
gets the next one. -/
theorem Loader.load_eq_ok {σ : Type} {disk : Disk (StateM σ)} {loader loader' : Loader} {o : Options}
    {visible : Linkage} {name : String} {world : σ} {number : Nat} {events : List Event}
    (h : ((loader.load disk o visible name).run world).1 = .ok (number, loader', events)) :
    (loader' = loader ∧ ∃ canonical, loader.loaded.lookup canonical = some number) ∨
      number = loader.libraries.size ∧ ∃ path text part log canonical, compile o visible path text = .ok (part, log) ∧
        loader' = { loader with
          libraries := loader.libraries.push part, loaded := loader.loaded ++ [(canonical, number)] } := by
  unfold load at h
  obtain ⟨_ | path, world, -, h⟩ := exists_of_bind h
  · cases h
  obtain ⟨_ | canonical, world, -, h⟩ := exists_of_bind h
  · cases h
  dsimp only at h
  split at h
  · next number' hnumber =>
    cases h
    exact .inl ⟨rfl, canonical, hnumber⟩
  · obtain ⟨_ | text, world, -, h⟩ := exists_of_bind h
    · cases h
    dsimp only at h
    split at h
    · cases h
    · next part log hcompile =>
      cases h
      exact .inr ⟨rfl, path, text, part, _, canonical, hcompile, rfl⟩

theorem Loader.compile_eq_ok {o : Options} {visible : Linkage} {path : String} {text : List Char} {part : Part}
    {log : List Event} (h : Loader.compile o visible path text = .ok (part, log)) :
    part.linkage = visible ∧ ∃ events,
      Chunk.compile (o.setting path visible.labels) (Statement.parse text) = .ok (part.chunk, events) := by
  unfold Loader.compile at h
  split at h <;> cases h
  next events hcompile => exact ⟨rfl, events, hcompile⟩

namespace Project

variable {p q : Project}

structure Sound (p : Project) : Prop where
  loaded {name : String} {number : Nat} : (name, number) ∈ p.loader.loaded → number < p.loader.libraries.size
  resolved {part : Part} : part ∈ p.loader.libraries → part.Resolved p.loader.libraries
  supplied : p.linkage.Supplied p.loader.libraries
  switches : p.switches.size = p.loader.libraries.size
  slots {number : Nat} {part : Part} : p.loader.libraries[number]? = some part →
    ∃ switch, p.switches[number]? = some switch ∧ switch.size = part.chunk.defaults.size

theorem Sound.ofOptions (options : Options) : (ofOptions options).Sound where
  loaded h := absurd h List.not_mem_nil
  resolved h := absurd h (Array.not_mem_empty _)
  supplied _ _ h := nomatch h
  switches := rfl
  slots h := nomatch h

theorem Sound.visible (h : p.Sound) : p.visible.1.Supplied p.loader.libraries := by
  unfold Project.visible
  split
  · exact h.supplied.link fun _ ↦ Component.system_supplies
  · exact h.supplied

/-- What happens to a project: a library is loaded, or a program is run for a while. -/
inductive Moves : Project → Project → Prop
  | load {p q : Project} {σ : Type} (disk : Disk (StateM σ)) {path : String} {world : σ} {events : List Event}
      (loaded : ((p.loadLibrary disk path).run world).1 = .ok (q, events)) : Moves p q
  | run (p : Project) {program : Chunk} (compiled : program.Compiled) (store : Store) (maxDraws : Option Nat)
      (events : Array Event) (n : Nat) :
      Moves p (p.after ((p.machine program maxDraws).run events n (p.start program store)).1.state)

def Leads : Project → Project → Prop := Relation.ReflTransGen Moves

theorem loadLibrary_eq_ok {σ : Type} {disk : Disk (StateM σ)} {path : String} {world : σ} {events : List Event}
    (h : ((p.loadLibrary disk path).run world).1 = .ok (q, events)) :
    ∃ number loader log,
      ((p.loader.load disk p.options p.visible.1 path).run world).1 = .ok (number, loader, log) ∧
      q = { p with
        linkage := (p.linkage.link (loader.component number)).1
        loader
        switches := if number < p.switches.size then p.switches
          else p.switches.push ⟨(loader.part number).chunk.defaults⟩ } := by
  obtain ⟨_ | ⟨number, loader, log⟩, world', hload, h⟩ := exists_of_bind h
  · cases h
  · cases h
    exact ⟨number, loader, log, hload, rfl⟩

/-- To link a library once more changes nothing but who owns the labels that were free. -/
theorem Sound.relink (hp : p.Sound) {number : Nat} (hlt : number < p.loader.libraries.size) :
    Sound { p with linkage := (p.linkage.link (p.loader.component number)).1 } := by
  refine ⟨hp.loaded, hp.resolved, ?_, hp.switches, hp.slots⟩
  have hpart : p.loader.libraries[number]? = some p.loader.libraries[number] := Array.getElem?_eq_getElem hlt
  rw [Loader.component, Loader.part, Array.getD_eq_getD_getElem?, hpart, Option.getD_some]
  exact hp.supplied.link fun _ ↦ (hp.resolved (Array.mem_of_getElem? hpart)).supplies hpart

theorem Sound.add (hp : p.Sound) {part : Part} (hpart : part.Resolved (p.loader.libraries.push part))
    (canonical : String) :
    Sound { p with
      linkage := (p.linkage.link (part.component p.loader.libraries.size)).1
      loader := { p.loader with
        libraries := p.loader.libraries.push part
        loaded := p.loader.loaded ++ [(canonical, p.loader.libraries.size)] }
      switches := p.switches.push ⟨part.chunk.defaults⟩ } where
  loaded hmem := by
    rw [Array.size_push]
    rcases List.mem_append.mp hmem with hmem | hmem
    · exact Nat.lt_succ_of_lt (hp.loaded hmem)
    · cases List.mem_singleton.mp hmem
      exact Nat.lt_succ_self _
  resolved hother := by
    rcases Array.mem_push.mp hother with hother | rfl
    · exact (hp.resolved hother).push part
    · exact hpart
  supplied := (hp.supplied.push part).link fun _ ↦ hpart.supplies Array.getElem?_push_size
  switches := by rw [Array.size_push, Array.size_push, hp.switches]
  slots {number other} hother := by
    rw [Array.getElem?_push] at hother ⊢
    rw [hp.switches]
    split at hother
    · next hnumber =>
      cases hother
      exact ⟨_, if_pos hnumber, rfl⟩
    · next hnumber =>
      rw [if_neg hnumber]
      exact hp.slots hother

theorem Sound.load {σ : Type} {disk : Disk (StateM σ)} {path : String} {world : σ} {events : List Event} (hp : p.Sound)
    (h : ((p.loadLibrary disk path).run world).1 = .ok (q, events)) : q.Sound := by
  obtain ⟨number, loader, log, hload, rfl⟩ := loadLibrary_eq_ok h
  rcases Loader.load_eq_ok hload with ⟨rfl, canonical, hnumber⟩ | ⟨rfl, path, text, part, log, canonical, hcompile, rfl⟩
  · have hlt := hp.loaded (mem_of_lookup hnumber)
    rw [if_pos (hp.switches ▸ hlt)]
    exact hp.relink hlt
  · obtain ⟨hlinkage, events, hcompile⟩ := Loader.compile_eq_ok hcompile
    have hresolved : part.Resolved (p.loader.libraries.push part) := by
      obtain ⟨chunk, linkage⟩ := part
      cases hlinkage
      exact .of_compile hcompile (hp.visible.push _) fun _ hl ↦ Linkage.mem_labels_iff.mp hl
    have hpart : Loader.part ⟨p.loader.searchPaths, p.loader.libraries.push part,
        p.loader.loaded ++ [(canonical, p.loader.libraries.size)]⟩ p.loader.libraries.size = part := by
      rw [Loader.part, Array.getD_eq_getD_getElem?, Array.getElem?_push_size, Option.getD_some]
    rw [if_neg (hp.switches ▸ Nat.lt_irrefl _), Loader.component, hpart]
    exact hp.add hresolved canonical

section Runs

variable {program : Chunk}

theorem Sound.sized (hp : p.Sound) (program : Chunk) (maxDraws : Option Nat) :
    (p.machine program maxDraws).Sized (p.switches.push ⟨program.defaults⟩) where
  parts := by rw [machine, Array.size_push, Array.size_push, hp.switches]
  slots number := by
    rw [Machine.part, machine, Array.getD_eq_getD_getElem?, Array.getD_eq_getD_getElem?, Array.getElem?_push,
      Array.getElem?_push, hp.switches]
    split
    · rfl
    · cases hpart : p.loader.libraries[number]? with
      | some part =>
        obtain ⟨switch, hswitch, hsize⟩ := hp.slots hpart
        rw [hswitch]
        exact hsize
      | none =>
        rw [Array.getElem?_eq_none_iff] at hpart
        rw [Array.getElem?_eq_none_iff.mpr (hp.switches ▸ hpart)]
        rfl

theorem Sound.compiled (hp : p.Sound) (hprogram : program.Compiled) (maxDraws : Option Nat) :
    (p.machine program maxDraws).Compiled := by
  intro part hpart
  rcases Array.mem_push.mp hpart with hpart | rfl
  · exact (hp.resolved hpart).compiled
  · exact hprogram

theorem Sound.start (hp : p.Sound) (program : Chunk) (maxDraws : Option Nat) (store : Store) :
    (p.machine program maxDraws).Reachable (p.start program store) :=
  .start _ (hp.sized program maxDraws) store 0

theorem Sound.after (hp : p.Sound) (hprogram : program.Compiled) (maxDraws : Option Nat) {s : Machine.State}
    (hs : (p.machine program maxDraws).Reachable s) : (p.after s).Sound := by
  have hsized := (hs.inRange (hp.compiled hprogram maxDraws)).switches
  have hparts : s.switches.size = p.loader.libraries.size + 1 := by
    rw [hsized.parts, machine, Array.size_push]
  have hkept : (p.after s).switches = s.switches.extract 0 p.loader.libraries.size := by
    rw [Project.after, Array.take_eq_extract, hp.switches]
  constructor
  case loaded => exact hp.loaded
  case resolved => exact hp.resolved
  case supplied => exact hp.supplied
  case switches =>
    rw [hkept, Array.size_extract, hparts, Nat.sub_zero]
    exact Nat.min_eq_left (Nat.le_succ _)
  case slots =>
    intro number part (hpart : p.loader.libraries[number]? = some part)
    obtain ⟨hlt, -⟩ := Array.getElem?_eq_some_iff.mp hpart
    have hin : number < s.switches.size := by omega
    refine ⟨s.switches[number], ?_, ?_⟩
    · rw [hkept, Array.getElem?_extract, if_pos (by omega), Nat.zero_add, Array.getElem?_eq_getElem hin]
    · have hslots := hsized.slots number
      simp only [Machine.part, machine, Array.getD_eq_getD_getElem?, getElem?_push_of_some hpart,
        Array.getElem?_eq_getElem hin] at hslots
      exact hslots

end Runs

theorem Sound.moves (hp : p.Sound) (h : Moves p q) : q.Sound := by
  cases h with
  | load disk loaded => exact hp.load loaded
  | run compiled store maxDraws events n =>
    exact hp.after compiled maxDraws ((hp.start _ maxDraws store).run maxDraws events n)

theorem Leads.sound (h : Leads p q) (hp : p.Sound) : q.Sound := by
  induction h with
  | refl => exact hp
  | tail _ hmoves ih => exact ih.moves hmoves

structure Extends (p q : Project) : Prop where
  options : q.options = p.options
  owner? {l : Label} {c : Component} : p.linkage.owner? l = some c → q.linkage.owner? l = some c

theorem Moves.extends (h : Moves p q) : p.Extends q := by
  cases h with
  | load disk loaded =>
    obtain ⟨number, loader, log, -, rfl⟩ := loadLibrary_eq_ok loaded
    exact ⟨rfl, fun howner ↦ Linkage.owner?_link_of_some howner _⟩
  | run compiled store maxDraws events n => exact ⟨rfl, fun howner ↦ howner⟩

theorem Leads.extends (h : Leads p q) : p.Extends q := by
  induction h with
  | refl => exact ⟨rfl, fun howner ↦ howner⟩
  | tail _ hmoves ih =>
    have hextends := hmoves.extends
    exact ⟨hextends.options.trans ih.options, fun howner ↦ hextends.owner? (ih.owner? howner)⟩

theorem Extends.visible (h : p.Extends q) (hl : (p.visible.1.owner? l).isSome) : (q.visible.1.owner? l).isSome := by
  have howner (hl : (p.linkage.owner? l).isSome) : (q.linkage.owner? l).isSome := by
    obtain ⟨c, hc⟩ := Option.isSome_iff_exists.mp hl
    rw [h.owner? hc]
    rfl
  unfold Project.visible at hl ⊢
  rw [h.options]
  split at hl
  · next hsystem =>
    rw [if_pos hsystem]
    rw [Linkage.owner?_link, Option.isSome_or, Bool.or_eq_true] at hl ⊢
    exact hl.imp_left howner
  · next hsystem =>
    rw [if_neg hsystem]
    exact howner hl

theorem compile_eq_ok {name : String} {text : List Char} {program : Chunk} {log : List Event}
    (h : p.compile name text = .ok (program, log)) : ∃ setting, setting.linked = p.visible.1.labels ∧
      Chunk.compile setting (Statement.parse text) = .ok (program, log) := by
  unfold Project.compile at h
  dsimp only at h
  split at h <;> cases h
  next hcompile => exact ⟨_, rfl, hcompile⟩

end Project

namespace Machine

variable {m : Machine} {s t : State}

theorem advance_ended {next : State → Turn} {n : Nat} {e : Ending} (h : advance next n s = .ended e t) :
    ∃ k u, k < n ∧ advance next k s = .going u ∧ next u = .ended e t := by
  induction n with
  | zero => cases h
  | succ n ih =>
    rw [advance_succ] at h
    cases hn : advance next n s with
    | going u =>
      rw [hn] at h
      exact ⟨n, u, Nat.lt_succ_self n, hn, h⟩
    | ended e' t' =>
      rw [hn] at h
      obtain ⟨k, u, hk, hu, hnext⟩ := ih (hn.trans h)
      exact ⟨k, u, Nat.lt_succ_of_lt hk, hu, hnext⟩

structure Linked (m : Machine) (libraries : Array Part) : Prop where
  library {number : Nat} {part : Part} : libraries[number]? = some part → m.part number = part
  resolved {part : Part} : part ∈ m.parts → part.Resolved libraries

theorem part_mem {i : Instruction} (hi : m.instruction? s = some i) : m.part s.site.part ∈ m.parts := by
  unfold instruction? chunk at hi
  unfold part at hi ⊢
  rw [Array.getD_eq_getD_getElem?] at hi ⊢
  cases hpart : m.parts[s.site.part]? with
  | none =>
    rw [hpart] at hi
    cases hi
  | some part => exact Array.mem_of_getElem? hpart

theorem Linked.here (h : m.Linked libraries) {i : Instruction} (hi : m.instruction? s = some i) :
    (m.part s.site.part).Resolved libraries :=
  h.resolved (part_mem hi)

theorem Linked.owner (h : m.Linked libraries) {i : Instruction} (hi : m.instruction? s = some i)
    (hop : i.op = .nextLinked l) : ∃ c, (m.part s.site.part).linkage.owner? l = some c :=
  Option.isSome_iff_exists.mp ((h.here hi).linked (Array.mem_of_getElem? hi) hop)

/-- With everything in order, only a `NEXT` that was lost from the beginning gets lost. -/
theorem Linked.lost_of_e129 (h : m.Linked libraries) {d : Diagnostic} (hturn : m.turn s = .ended (.failed d) t)
    (hcode : d.code = .e129) : ∃ u i n, m.Performs s u i ∧ i.op = .lost n := by
  obtain ⟨d', hfails, rfl⟩ := turn_fails m s d t hturn
  rw [code_orTraced] at hcode
  cases hfails with
  | fellOff entering here => cases hcode
  | crash => cases hcode
  | @raised u i f performs raises =>
    rw [code_report] at hcode
    generalize hop : i.op = op at raises
    cases raises with
    | store h => exact absurd hcode (Fault.code_of_ofStore h).1
    | lost n => exact ⟨u, i, n, performs, hop⟩
    | noOwner owner =>
      obtain ⟨c, hc⟩ := h.owner performs.here hop
      cases owner.symm.trans hc
    | noEntry owner body entry =>
      have hsupplies := (h.here performs.here).supplied _ _ owner
      simp only [Component.Supplies, body] at hsupplies
      obtain ⟨library, index, hlibrary, hindex⟩ := hsupplies
      rw [h.library hlibrary, hindex] at entry
      cases entry
    | noRoutine owner body absent =>
      have hsupplies := (h.here performs.here).supplied _ _ owner
      simp only [Component.Supplies, body] at hsupplies
      exact absurd hsupplies absent
    | _ => cases hcode
  | host performs op owner body =>
    have hsupplies := (h.here performs.here).supplied _ _ owner
    simp only [Component.Supplies, body] at hsupplies

end Machine

namespace Project

variable {p q : Project} {program : Chunk}

theorem part_machine {number : Nat} {part : Part} (h : p.loader.libraries[number]? = some part) (program : Chunk)
    (maxDraws : Option Nat) : (p.machine program maxDraws).part number = part := by
  rw [Machine.part, machine, Array.getD_eq_getD_getElem?, getElem?_push_of_some h, Option.getD_some]

theorem part_machine_size (p : Project) (program : Chunk) (maxDraws : Option Nat) :
    (p.machine program maxDraws).part p.loader.libraries.size = ⟨program, p.visible.1⟩ := by
  rw [Machine.part, machine, Array.getD_eq_getD_getElem?, Array.getElem?_push_size, Option.getD_some]

theorem Sound.linked (hp : p.Sound) (hprogram : Part.Resolved p.loader.libraries ⟨program, p.visible.1⟩)
    (maxDraws : Option Nat) : (p.machine program maxDraws).Linked p.loader.libraries where
  library hpart := part_machine hpart program maxDraws
  resolved hpart := by
    rcases Array.mem_push.mp hpart with hpart | rfl
    · exact hp.resolved hpart
    · exact hprogram

theorem Sound.part_supplied (hp : p.Sound) {maxDraws : Option Nat} {part : Part}
    (hpart : part ∈ (p.machine program maxDraws).parts) : part.linkage.Supplied p.loader.libraries := by
  rcases Array.mem_push.mp hpart with hpart | rfl
  · exact (hp.resolved hpart).supplied
  · exact hp.visible

theorem Sound.not_callsHost (hp : p.Sound) (program : Chunk) (maxDraws : Option Nat) (s : Machine.State) :
    ¬ (p.machine program maxDraws).CallsHost s := by
  rintro ⟨t, i, label, c, routines, performs, -, howner, hbody⟩
  have hsupplies := hp.part_supplied (Machine.part_mem performs.here) label c howner
  simp only [Component.Supplies, hbody] at hsupplies

theorem resolved_of_compile {name : String} {text : List Char} {log : List Event} (hp : p.Leads q) (hq : q.Sound)
    (hcompile : p.compile name text = .ok (program, log)) :
    Part.Resolved q.loader.libraries ⟨program, q.visible.1⟩ := by
  obtain ⟨setting, hlinked, hcompile⟩ := compile_eq_ok hcompile
  refine .of_compile hcompile hq.visible fun l hl ↦ hp.extends.visible ?_
  rw [hlinked] at hl
  exact Linkage.mem_labels_iff.mp hl

/-- A program is compiled when some libraries are loaded and run when there may be more. Wherever control is, a `NEXT`
to a linked label finds its owner, and the owner has what the label stands for. So when a run gets lost, it is at a
`NEXT` that was known to be lost when it was compiled. -/
theorem linked_labels_found {options : Options} {name : String} {text : List Char} {log : List Event}
    (hp : (ofOptions options).Leads p) (hprogram : p.compile name text = .ok (program, log)) (hq : p.Leads q)
    (maxDraws : Option Nat) :
    (∀ s i l, (q.machine program maxDraws).instruction? s = some i → i.op = .nextLinked l →
      ∃ c, ((q.machine program maxDraws).part s.site.part).linkage.owner? l = some c ∧
        c.Supplies q.loader.libraries l) ∧
    (∀ number library, q.loader.libraries[number]? = some library →
      (q.machine program maxDraws).part number = library) ∧
    ∀ store events n d t,
      ((q.machine program maxDraws).run events n (q.start program store)).1 = .ended (.failed d) t → d.code = .e129 →
      ∃ k s u i label, k < n ∧ ((q.machine program maxDraws).run events k (q.start program store)).1 = .going s ∧
        (q.machine program maxDraws).Performs s u i ∧ i.op = .lost label := by
  have hsound : q.Sound := Leads.sound (hp.trans hq) (.ofOptions options)
  have hlinked := hsound.linked (resolved_of_compile hq hsound hprogram) maxDraws
  refine ⟨fun s i l hi hop ↦ ?_, fun number library ↦ hlinked.library, fun store events n d t hrun hcode ↦ ?_⟩
  · obtain ⟨c, hc⟩ := hlinked.owner hi hop
    exact ⟨c, hc, (hlinked.here hi).supplied l c hc⟩
  · rw [Machine.run_fst] at hrun
    obtain ⟨k, s, hk, hs, hturn⟩ := Machine.advance_ended hrun
    obtain ⟨u, i, label, hperforms, hop⟩ := hlinked.lost_of_e129 hturn hcode
    exact ⟨k, s, u, i, label, hk, by rw [Machine.run_fst, hs], hperforms, hop⟩

def shelf : Disk (StateM Unit) where
  isFile _ := pure true
  canonical path := pure (.ok path)
  read _ := pure (.ok ("(1000) DO RESUME #1".toList.map fun c ↦ UInt8.ofNat c.toNat))

def plain : Project := ofOptions { optimize := false }

theorem loadLibrary_shelf_exports : ∃ q events, ((plain.loadLibrary shelf "a.i").run ()).1 = .ok (q, events) ∧
    q.loader.libraries.toList.map (·.chunk.exports) = [[⟨1000, by decide, by decide⟩]] := by
  have hextension : Path.extension? "a.i" = some "i" := by decide +kernel
  have hresolve (loader : Loader) : loader.resolve shelf "a.i" = pure (.ok "a.i") := by
    rw [Loader.resolve, hextension]
    rfl
  have hexports : ((plain.loadLibrary shelf "a.i").run ()).1.toOption.map
      (fun x ↦ x.1.loader.libraries.toList.map (·.chunk.exports)) = some [[⟨1000, by decide, by decide⟩]] := by
    simp only [loadLibrary, Loader.load, hresolve]
    decide +kernel
  cases h : ((plain.loadLibrary shelf "a.i").run ()).1 with
  | error d =>
    rw [h] at hexports
    cases hexports
  | ok x =>
    rw [h] at hexports
    exact ⟨x.1, x.2, rfl, Option.some.inj hexports⟩

theorem loadLibrary_shelf : ∃ q events, ((plain.loadLibrary shelf "a.i").run ()).1 = .ok (q, events) := by
  obtain ⟨q, events, hq, -⟩ := loadLibrary_shelf_exports
  exact ⟨q, events, hq⟩

def caller (op : Op) : Chunk := { Chunk.empty "b.i" with instructions := #[⟨op, {}, none, none, 1⟩] }

theorem parse_caller :
    Statement.parse "DO (1000) NEXT".toList = [⟨0, .start, {}, .next 1000, "DO (1000) NEXT"⟩] := by
  rfl

theorem compile_caller_of (hoptions : p.options = plain.options)
    (howner : (p.visible.1.owner? ⟨1000, by decide, by decide⟩).isSome) : ∃ log,
    p.compile "b.i" "DO (1000) NEXT".toList = .ok (caller (.nextLinked ⟨1000, by decide, by decide⟩), log) := by
  have hlinked : p.visible.1.labels.contains ⟨1000, by decide, by decide⟩ = true :=
    List.contains_iff_mem.mpr (Linkage.mem_labels_iff.mpr howner)
  -- The labels are sorted, which is nothing to compute with; all that matters is whether this one is there.
  have hlower (linked : List Label) : ∃ log,
      Chunk.compile { plain.options.setting "b.i" linked with exported := none }
          [⟨0, .start, {}, .next 1000, "DO (1000) NEXT"⟩] =
        .ok (caller (if linked.contains ⟨1000, by decide, by decide⟩ then .nextLinked ⟨1000, by decide, by decide⟩
          else .lost 1000), log) := ⟨_, rfl⟩
  obtain ⟨log, hlog⟩ := hlower p.visible.1.labels
  rw [hlinked, if_pos rfl, ← parse_caller] at hlog
  exact ⟨log, by rw [compile, hoptions, hlog]⟩

theorem compile_caller : ∃ log,
    plain.compile "b.i" "DO (1000) NEXT".toList = .ok (caller (.nextLinked ⟨1000, by decide, by decide⟩), log) :=
  compile_caller_of rfl (by decide)

/-- The program is compiled when the label belongs to the system library, and run when it belongs to another. -/
theorem linked_labels_found_elsewhere :
    ∃ q events log, ((plain.loadLibrary shelf "a.i").run ()).1 = .ok (q, events) ∧
      plain.compile "b.i" "DO (1000) NEXT".toList = .ok (caller (.nextLinked ⟨1000, by decide, by decide⟩), log) ∧
      ∃ c, q.visible.1.owner? ⟨1000, by decide, by decide⟩ = some c ∧
        c.Supplies q.loader.libraries ⟨1000, by decide, by decide⟩ := by
  obtain ⟨q, events, hq⟩ := loadLibrary_shelf
  obtain ⟨log, hprogram⟩ := compile_caller
  have hfound := linked_labels_found .refl hprogram (.single (.load shelf hq)) none
  generalize hcaller : caller (.nextLinked ⟨1000, by decide, by decide⟩) = program at hprogram hfound
  have hpart := part_machine_size q program none
  obtain ⟨c, hc, hsupplies⟩ := hfound.1 (q.start program {})
    ⟨.nextLinked ⟨1000, by decide, by decide⟩, {}, none, none, 1⟩ ⟨1000, by decide, by decide⟩
    (by rw [Machine.instruction?, Machine.chunk, start, hpart, ← hcaller]; rfl) rfl
  rw [start, hpart] at hc
  exact ⟨q, events, log, hq, hprogram, c, hc, hsupplies⟩

end Project

namespace Machine

/-- A compiled chunk is true to its program and closed. Hence whatever the host does, control is never further than
right behind a last statement, which is the only place where a run falls off, and no switch is asked for or set that
is not there. Every run of a program with its libraries is of this kind, and calls no routine of the host. -/
theorem control_confined :
    (∀ setting statements c log, Chunk.compile setting statements = .ok (c, log) →
      ∃ p, Program.analyze setting.polite statements = .ok p ∧ p.statements = statements ∧ c.Mirrors setting p ∧
        c.Closed) ∧
    (∀ (m : Machine) s, m.Compiled → m.Reachable s →
      s.site.index ≤ (m.chunk s).size ∧
      (∀ i, m.instruction? s = some i → ∀ slot ∈ i.slots, slot < s.switch.size) ∧
      (∀ d t, m.turn s = .ended (.failed d) t → d.code = .e633 →
        s.site.index = (m.chunk s).size ∨ m.CallsHost s) ∧
      (s.leaving = false → s.site.index = (m.chunk s).size →
        ∃ d t, m.turn s = .ended (.failed d) t ∧ d.code = .e633)) ∧
    ∀ options (p : Project) program store maxDraws, (Project.ofOptions options).Leads p → program.Compiled →
      (p.machine program maxDraws).Compiled ∧ (p.machine program maxDraws).Reachable (p.start program store) ∧
        ∀ s, ¬ (p.machine program maxDraws).CallsHost s := by
  refine ⟨fun setting statements c log ↦ Chunk.compile_mirrors, fun m s hm hs ↦ ?_,
    fun options p program store maxDraws hp hprogram ↦ ?_⟩
  · have hrange := hs.inRange hm
    refine ⟨hrange.here, fun i hi slot ↦ hrange.slot_lt hm hi, fun d t hturn hcode ↦ ?_, fun hleaving hend ↦ ?_⟩
    · rcases fellOff_of_e633 hturn hcode with ⟨-, hnone⟩ | hhost
      · exact .inl (hrange.instruction?_eq_none_iff.mp hnone)
      · exact .inr hhost
    · exact e633_of_fellOff hleaving (hrange.instruction?_eq_none_iff.mpr hend)
  · have hsound := hp.sound (.ofOptions options)
    exact ⟨hsound.compiled hprogram maxDraws, hsound.start program maxDraws store,
      hsound.not_callsHost program maxDraws⟩

def bypass : List Statement :=
  [⟨0, ⟨1, 1, 0⟩, { label := some 10 }, .abstain (.label 20), "(10) DO ABSTAIN FROM (20)"⟩,
    ⟨1, ⟨2, 1, 26⟩, { label := some 20, enabled := false }, .giveUp, "(20) DO NOT GIVE UP"⟩,
    ⟨2, ⟨3, 1, 46⟩, {}, .comeFrom 10, "DO COME FROM (10)"⟩]

def bypassChunk : Chunk where
  name := "bypass"
  instructions := #[⟨.abstain [0], {}, some ⟨2, none, 100⟩, some ⟨10, by decide, by decide⟩, 1⟩,
    ⟨.giveUp, ⟨some 0, 100⟩, none, some ⟨20, by decide, by decide⟩, 2⟩, ⟨.comeFrom, {}, none, none, 3⟩]
  defaults := #[true]
  entries := [(⟨10, by decide, by decide⟩, 0), (⟨20, by decide, by decide⟩, 1)]
  exports := [⟨10, by decide, by decide⟩, ⟨20, by decide, by decide⟩]

def bypassMachine : Machine where
  parts := #[⟨bypassChunk, .empty⟩]
  maxDepth := 80

theorem control_confined_bypass :
    Chunk.compile ⟨"bypass", [], false, true, none⟩ bypass = .ok (bypassChunk, [.analyzed "bypass" 3 1]) ∧
      bypassChunk.Closed ∧
      ∃ s d t, (bypassMachine.run #[] 3 ⟨⟨0, 0⟩, false, [], #[⟨#[true]⟩], {}, 0⟩).1 = .going s ∧ s.site = ⟨0, 3⟩ ∧
        bypassMachine.turn s = .ended (.failed d) t ∧ d.code = .e633 := by
  have hcompile : Chunk.compile ⟨"bypass", [], false, true, none⟩ bypass =
      .ok (bypassChunk, [.analyzed "bypass" 3 1]) := rfl
  obtain ⟨hchunk, hrun, -⟩ := control_confined
  obtain ⟨-, -, -, -, hclosed⟩ := hchunk _ _ _ _ hcompile
  have hcompiled : bypassMachine.Compiled := by
    intro part hpart
    cases Array.mem_singleton.mp hpart
    exact ⟨_, _, _, hcompile⟩
  have hsized : bypassMachine.Sized #[⟨#[true]⟩] := by
    refine ⟨rfl, fun number ↦ ?_⟩
    cases number <;> rfl
  have hreached := (Reachable.start 0 hsized {} 0).run none #[] 3
  obtain ⟨-, -, -, hend⟩ := hrun _ _ hcompiled hreached
  obtain ⟨d, t, hturn, hcode⟩ := hend rfl rfl
  exact ⟨hcompile, hclosed, _, d, t, rfl, rfl, hturn, hcode⟩

end Machine

end Intercal
