import Intercal.Proofs.Coverage

namespace Intercal

namespace Op

def slots : Op → List Nat
  | .abstain slots | .reinstate slots => slots
  | _ => []

def evaluates : Op → Bool
  | .effect _ | .resume _ | .forget _ => true
  | _ => false

theorem fold_eq_iff {op target : Op} (h : target.evaluates = false) : op.fold.result = target ↔ op = target := by
  cases op with
  | effect e => constructor <;> (rintro rfl; cases h)
  | resume e => constructor <;> (rintro rfl; cases h)
  | forget e => constructor <;> (rintro rfl; cases h)
  | _ => exact Iff.rfl

def leads : Op → Bool
  | .next .. | .nextLinked _ => true
  | _ => false

theorem slots_fold (op : Op) : op.fold.result.slots = op.slots := by cases op <;> rfl

end Op

/-- The slots that an instruction asks or switches: its own, that of the `COME FROM` aimed at it, and those that it
abstains from or reinstates. -/
def Instruction.slots (i : Instruction) : List Nat :=
  i.guard.slot.toList ++ (i.trapdoor.bind (·.slot)).toList ++ i.op.slots

namespace Chunk

variable {setting : Setting} {p : Program} {statements : List Statement} {c : Chunk}

def compiled (setting : Setting) (p : Program) (s : Statement) (i : Nat) : Instruction :=
  if setting.optimize then (lowerStatement p setting.linked s i).fold.result else lowerStatement p setting.linked s i

section Compiled

variable (setting p) (s : Statement) (i : Nat)

theorem compiled_guard : (compiled setting p s i).guard = guardOf p i s := by
  unfold compiled
  split <;> rfl

theorem compiled_trapdoor : (compiled setting p s i).trapdoor = trapdoorOf p i := by
  unfold compiled
  split <;> rfl

theorem compiled_label : (compiled setting p s i).label = s.header.label.bind Label.ofNat? := by
  unfold compiled
  split <;> rfl

theorem compiled_op_slots : (compiled setting p s i).op.slots = (lowerOp p setting.linked s).slots := by
  unfold compiled
  split
  · exact Op.slots_fold _
  · rfl

variable {s i}

theorem compiled_op_eq_iff {op : Op} (h : op.evaluates = false) :
    (compiled setting p s i).op = op ↔ lowerOp p setting.linked s = op := by
  unfold compiled
  split
  · exact Op.fold_eq_iff h
  · exact Iff.rfl

end Compiled

/-- A chunk comes from a checked program, one instruction from each of its statements. -/
theorem compile_eq_ok {log : List Event} (h : compile setting statements = .ok (c, log)) :
    ∃ p, Program.analyze setting.polite statements = .ok p ∧
      c = { lower setting p with
        instructions := (p.statements.zipIdx.map fun x ↦ compiled setting p x.1 x.2).toArray } := by
  obtain ⟨p, hanalyze, h⟩ := bind_eq_ok h
  refine ⟨p, hanalyze, ?_⟩
  split at h <;> cases h
  · next hoptimize =>
    simp only [fold, lower, compiled, hoptimize, if_true, List.map_toArray, List.map_map]
    rfl
  · next hoptimize =>
    simp only [lower, compiled, hoptimize]
    rfl

/-- The labels lead to their statements, slots are handed out in order and are off where a statement says `NOT`, and
what may be exported is. -/
structure Mirrors (c : Chunk) (setting : Setting) (p : Program) : Prop where
  instructions : c.instructions.toList = p.statements.zipIdx.map fun x ↦ compiled setting p x.1 x.2
  entry?_iff (l : Label) (i : Nat) :
    c.entry? l = some i ↔ ∃ s, p.statements[i]? = some s ∧ s.header.label = some l.value
  inRange {i n : Nat} {s : Statement} :
    p.statements[i]? = some s → s.header.label = some n → ∃ l : Label, l.value = n
  slots_length : p.slots.length = p.statements.length
  slots : p.slots.filterMap id = List.range c.defaults.size
  defaults {i slot : Nat} {s : Statement} :
    p.statements[i]? = some s → p.slot? i = some slot → c.defaults[slot]? = some !s.header.enabled
  exports : c.exports =
    (p.statements.filterMap (·.header.label.bind Label.ofNat?)).filter fun l ↦ setting.exported.all (·.contains l.value)

/-- Where a chunk leads within itself there is something, and there is a switch for every slot. -/
structure Closed (c : Chunk) : Prop where
  entry {l : Label} {i : Nat} : c.entry? l = some i → ∃ x, c.instructions[i]? = some x ∧ x.label = some l
  next {x : Instruction} {l : Label} {i : Nat} :
    x ∈ c.instructions → x.op = .next l i → ∃ y, c.instructions[i]? = some y ∧ y.label = some l
  trapdoor {x : Instruction} {t : Trapdoor} :
    x ∈ c.instructions → x.trapdoor = some t → ∃ y, c.instructions[t.comeFrom]? = some y ∧ y.op = .comeFrom
  slots {x : Instruction} {slot : Nat} : x ∈ c.instructions → slot ∈ x.slots → slot < c.defaults.size

theorem closed_empty (name : String) : (empty name).Closed where
  entry h := nomatch h
  next h := absurd h (Array.not_mem_empty _)
  trapdoor h := absurd h (Array.not_mem_empty _)
  slots h := absurd h (Array.not_mem_empty _)

end Chunk

theorem checkLabels_inRange {seen : List (Nat × Nat)} {i : Nat} {statements : List Statement}
    (h : checkLabels seen i statements = .ok ()) {s : Statement} (hs : s ∈ statements) {n : Nat}
    (hn : s.header.label = some n) : ∃ l : Label, l.value = n := by
  induction statements generalizing seen i with
  | nil => exact absurd hs List.not_mem_nil
  | cons t rest ih =>
    unfold checkLabels at h
    rcases List.mem_cons.mp hs with rfl | hs
    · simp only [hn] at h
      split at h
      · cases h
      · next hrange =>
        obtain ⟨l, hl⟩ := Option.ne_none_iff_exists'.mp (mt Option.isNone_iff_eq_none.mpr hrange)
        exact ⟨l, Label.ofNat?_eq_some_iff.mp hl⟩
    · split at h
      · exact ih h hs
      · split at h
        · cases h
        · split at h
          · cases h
          · exact ih h hs

theorem mem_of_lookup {α β : Type} [DecidableEq α] {entries : List (α × β)} {a : α} {b : β}
    (h : entries.lookup a = some b) : (a, b) ∈ entries := by
  obtain ⟨front, back, rfl, -⟩ := List.lookup_eq_some_iff.mp h
  exact List.mem_append_right front List.mem_cons_self

theorem filterMap_id_assignSlots (ts : List Abstention) (next : Nat) (statements : List Statement) :
    (assignSlots ts next statements).filterMap id = List.range' next (statements.countP (needsSlot ts)) := by
  induction statements generalizing next with
  | nil => rfl
  | cons s rest ih =>
    unfold assignSlots
    split
    · next h => rw [List.filterMap_cons, ih, List.countP_cons_of_pos h, List.range'_succ]; rfl
    · next h => rw [List.filterMap_cons, ih, List.countP_cons_of_neg h]; rfl

theorem length_assignSlots (ts : List Abstention) (next : Nat) (statements : List Statement) :
    (assignSlots ts next statements).length = statements.length := by
  induction statements generalizing next with
  | nil => rfl
  | cons s rest ih => by_cases h : needsSlot ts s <;> simp [assignSlots, h, ih]

namespace Program

variable {p : Program}

theorem mem_labels {l : Label} {i : Nat} :
    (l, i) ∈ p.labels ↔ ∃ s, p.statements[i]? = some s ∧ s.header.label = some l.value := by
  rw [labels, List.mem_filterMap]
  constructor
  · rintro ⟨⟨s, j⟩, hs, hlabel⟩
    obtain ⟨l', hl', heq⟩ := Option.map_eq_some_iff.mp hlabel
    cases heq
    obtain ⟨n, hn, hofNat⟩ := Option.bind_eq_some_iff.mp hl'
    exact ⟨s, List.mk_mem_zipIdx_iff_getElem?.mp hs, by rw [hn, Label.ofNat?_eq_some_iff.mp hofNat]⟩
  · rintro ⟨s, hs, hlabel⟩
    refine ⟨(s, i), List.mk_mem_zipIdx_iff_getElem?.mpr hs, ?_⟩
    simp [hlabel, Label.ofNat?_value]

theorem Sound.position_unique (hp : p.Sound) {n i j : Nat} {s t : Statement} (hs : p.statements[i]? = some s)
    (hns : s.header.label = some n) (ht : p.statements[j]? = some t) (hnt : t.header.label = some n) : i = j := by
  have hi := (positionOf?_eq_some_iff hp.distinct).mpr ⟨s, hs, hns⟩
  have hj := (positionOf?_eq_some_iff hp.distinct).mpr ⟨t, ht, hnt⟩
  exact Option.some.inj (hi.symm.trans hj)

theorem Sound.lookup_labels (hp : p.Sound) (l : Label) (i : Nat) :
    p.labels.lookup l = some i ↔ ∃ s, p.statements[i]? = some s ∧ s.header.label = some l.value := by
  constructor
  · intro h
    exact mem_labels.mp (mem_of_lookup h)
  · rintro ⟨s, hs, hlabel⟩
    have hsome : (p.labels.lookup l).isSome :=
      List.lookup_isSome_iff.mpr ⟨(l, i), mem_labels.mpr ⟨s, hs, hlabel⟩, beq_self_eq_true l⟩
    obtain ⟨j, hj⟩ := Option.isSome_iff_exists.mp hsome
    obtain ⟨t, ht, hlabel'⟩ := mem_labels.mp (mem_of_lookup hj)
    rw [hj, hp.position_unique hs hlabel ht hlabel']

theorem labels_fst : p.labels.map (·.1) = p.statements.filterMap (·.header.label.bind Label.ofNat?) := by
  have hfst := List.zipIdx_map_fst 0 p.statements
  conv => rhs; rw [← hfst]
  rw [labels, List.map_filterMap, List.filterMap_map]
  congr 1
  funext x
  exact Option.map_map .. |>.trans Option.map_id'

theorem Sound.defaults_size (hp : p.Sound) (setting : Setting) : (Chunk.lower setting p).defaults.size = p.slotCount :=
  (covers_defaults hp setting).slots_size

theorem Sound.defaults_slot (hp : p.Sound) (setting : Setting) {i slot : Nat} {s : Statement}
    (hs : p.statements[i]? = some s) (hslot : p.slot? i = some slot) :
    (Chunk.lower setting p).defaults[slot]? = some !s.header.enabled := by
  have hlt : slot < (Chunk.lower setting p).defaults.size := by
    rw [hp.defaults_size setting]
    exact hp.slot?_lt hslot
  have hflag := (covers_defaults hp setting).abstained i
  simp only [Switches.abstained, Switches.blocks, hslot, Array.getD_eq_getD_getElem?, List.getElem?_toArray,
    List.getElem?_map, hs, Option.map_some, Option.getD_some] at hflag
  rw [Array.getElem?_eq_getElem hlt, Option.getD_some] at hflag
  rw [Array.getElem?_eq_getElem hlt, ← hflag]

end Program

namespace Chunk

variable {setting : Setting} {p : Program} {statements : List Statement} {c : Chunk} {log : List Event}

theorem mirrors_compile (hp : p.Sound) (hlabels : checkLabels [] 0 p.statements = .ok ()) :
    Mirrors { lower setting p with
      instructions := (p.statements.zipIdx.map fun x ↦ compiled setting p x.1 x.2).toArray } setting p where
  instructions := rfl
  entry?_iff l i := hp.lookup_labels l i
  inRange hs hn := checkLabels_inRange hlabels (List.mem_of_getElem? hs) hn
  slots_length := by rw [hp.slots, length_assignSlots]
  slots := by
    have hsize : (lower setting p).defaults.size = p.slotCount := hp.defaults_size setting
    rw [hsize, hp.slotCount_eq, hp.slots, filterMap_id_assignSlots, List.range_eq_range']
  defaults hs hslot := hp.defaults_slot setting hs hslot
  exports := congrArg (List.filter _) Program.labels_fst

namespace Mirrors

variable {x : Instruction} {s : Statement} {i : Nat}

theorem getElem? (h : c.Mirrors setting p) (i : Nat) :
    c.instructions[i]? = p.statements[i]?.map fun s ↦ compiled setting p s i := by
  rw [← Array.getElem?_toList, h.instructions, List.getElem?_map, List.getElem?_zipIdx, Option.map_map]
  simp only [Nat.zero_add]
  rfl

theorem mem (h : c.Mirrors setting p) (hx : x ∈ c.instructions) :
    ∃ i s, p.statements[i]? = some s ∧ x = compiled setting p s i := by
  obtain ⟨i, hi⟩ := Array.mem_iff_getElem?.mp hx
  rw [h.getElem?, Option.map_eq_some_iff] at hi
  obtain ⟨s, hs, rfl⟩ := hi
  exact ⟨i, s, hs, rfl⟩

theorem label (h : c.Mirrors setting p) {l : Label} (hs : p.statements[i]? = some s)
    (hl : s.header.label = some l.value) : ∃ x, c.instructions[i]? = some x ∧ x.label = some l := by
  refine ⟨_, by rw [h.getElem?, hs, Option.map_some], ?_⟩
  rw [compiled_label, hl, Option.bind_some, Label.ofNat?_value]

theorem slot_lt (h : c.Mirrors setting p) {slot : Nat} (hslot : p.slot? i = some slot) : slot < c.defaults.size := by
  have hmem : slot ∈ p.slots.filterMap id := by
    rw [Program.slot?, List.getD_eq_getElem?_getD, Option.getD_eq_iff] at hslot
    obtain hsome | ⟨-, hnone⟩ := hslot
    · exact List.mem_filterMap.mpr ⟨some slot, List.mem_of_getElem? hsome, rfl⟩
    · cases hnone
  rw [h.slots] at hmem
  exact List.mem_range.mp hmem

theorem lowerOp_of_leads {linked : List Label} (h : (lowerOp p linked s).leads) :
    ∃ target, lowerOp p linked s = lowerNext p linked target := by
  cases hbody : s.body with
  | next target => exact ⟨target, by simp only [lowerOp, hbody]⟩
  | abstain t =>
    simp only [lowerOp, hbody] at h
    split at h <;> cases h
  | reinstate t =>
    simp only [lowerOp, hbody] at h
    split at h <;> cases h
  | _ =>
    simp only [lowerOp, hbody] at h
    cases h

theorem lowerOp_eq_next {linked : List Label} {l : Label} (hop : lowerOp p linked s = .next l i) :
    p.position? l.value = some i := by
  obtain ⟨target, htarget⟩ := lowerOp_of_leads (by rw [hop]; rfl : (lowerOp p linked s).leads)
  rw [htarget, lowerNext] at hop
  split at hop
  · cases hop
  · next l' hofNat =>
    split at hop
    · next entry hposition =>
      cases hop
      rw [Label.ofNat?_eq_some_iff.mp hofNat, hposition]
    · split at hop <;> cases hop

theorem lowerOp_eq_nextLinked {linked : List Label} {l : Label} (hop : lowerOp p linked s = .nextLinked l) :
    l ∈ linked := by
  obtain ⟨target, htarget⟩ := lowerOp_of_leads (by rw [hop]; rfl : (lowerOp p linked s).leads)
  rw [htarget, lowerNext] at hop
  split at hop
  · cases hop
  · split at hop
    · cases hop
    · split at hop <;> cases hop
      next hcontains => exact List.contains_iff_mem.mp hcontains

theorem mem_slotsOf {t : Abstention} {slots : List Nat} (h : slotsOf p t = .ok slots) {slot : Nat}
    (hslot : slot ∈ slots) : ∃ i, p.slot? i = some slot := by
  cases t with
  | label n =>
    simp only [slotsOf] at h
    split at h <;> cases h
    exact ⟨_, Option.mem_toList.mp hslot⟩
  | gerunds gs =>
    cases h
    obtain ⟨i, -, hi⟩ := List.mem_filterMap.mp hslot
    exact ⟨i, hi⟩

theorem mem_slots_lowerOp {linked : List Label} {slot : Nat} (hslot : slot ∈ (lowerOp p linked s).slots) :
    ∃ i, p.slot? i = some slot := by
  cases hbody : s.body with
  | abstain t =>
    simp only [lowerOp, hbody] at hslot
    split at hslot
    · next slots hslots => exact mem_slotsOf hslots hslot
    · cases hslot
  | reinstate t =>
    simp only [lowerOp, hbody] at hslot
    split at hslot
    · next slots hslots => exact mem_slotsOf hslots hslot
    · cases hslot
  | next target =>
    simp only [lowerOp, hbody, lowerNext] at hslot
    repeat' split at hslot
    all_goals cases hslot
  | _ =>
    simp only [lowerOp, hbody] at hslot
    cases hslot

theorem closed (h : c.Mirrors setting p) (hp : p.Sound) : c.Closed where
  entry hentry := by
    obtain ⟨s, hs, hlabel⟩ := (h.entry?_iff _ _).mp hentry
    exact h.label hs hlabel
  next {x l i} hx hop := by
    obtain ⟨j, s, hs, rfl⟩ := h.mem hx
    rw [compiled_op_eq_iff setting p rfl] at hop
    obtain ⟨t, ht, hlabel⟩ := (positionOf?_eq_some_iff hp.distinct).mp (lowerOp_eq_next hop)
    exact h.label ht hlabel
  trapdoor {x t} hx htrapdoor := by
    obtain ⟨j, s, hs, rfl⟩ := h.mem hx
    rw [compiled_trapdoor, trapdoorOf] at htrapdoor
    obtain ⟨origin, horigin, htrapdoor⟩ := Option.bind_eq_some_iff.mp htrapdoor
    obtain ⟨u, hu, htrapdoor⟩ := Option.bind_eq_some_iff.mp htrapdoor
    cases htrapdoor
    obtain ⟨-, u', n, -, -, hu', hbody⟩ := (hp.trapdoor_iff j origin).mp horigin
    rw [hu] at hu'
    cases hu'
    refine ⟨_, by rw [h.getElem?, hu, Option.map_some], ?_⟩
    rw [compiled_op_eq_iff setting p rfl]
    simp only [lowerOp, hbody]
  slots {x slot} hx hslot := by
    obtain ⟨j, s, hs, rfl⟩ := h.mem hx
    rw [Instruction.slots, compiled_guard, compiled_trapdoor, compiled_op_slots, List.mem_append, List.mem_append,
      Option.mem_toList, Option.mem_toList] at hslot
    obtain (hguard | htrapdoor) | hop := hslot
    · unfold guardOf at hguard
      split at hguard
      · cases hguard
      · exact h.slot_lt hguard
    · obtain ⟨t, ht, hslot⟩ := Option.bind_eq_some_iff.mp htrapdoor
      obtain ⟨origin, -, ht⟩ := Option.bind_eq_some_iff.mp ht
      obtain ⟨u, -, ht⟩ := Option.bind_eq_some_iff.mp ht
      cases ht
      exact h.slot_lt hslot
    · obtain ⟨i, hi⟩ := mem_slots_lowerOp hop
      exact h.slot_lt hi

theorem linked (h : c.Mirrors setting p) {l : Label} (hx : x ∈ c.instructions) (hop : x.op = .nextLinked l) :
    l ∈ setting.linked := by
  obtain ⟨j, s, hs, rfl⟩ := h.mem hx
  rw [compiled_op_eq_iff setting p rfl] at hop
  exact lowerOp_eq_nextLinked hop

theorem entry?_of_exported (h : c.Mirrors setting p) {l : Label} (hl : l ∈ c.exports) : (c.entry? l).isSome := by
  rw [h.exports] at hl
  obtain ⟨s, hs, hlabel⟩ := List.mem_filterMap.mp (List.mem_filter.mp hl).1
  obtain ⟨n, hn, hofNat⟩ := Option.bind_eq_some_iff.mp hlabel
  obtain ⟨i, hi⟩ := List.mem_iff_getElem?.mp hs
  rw [Option.isSome_iff_exists]
  exact ⟨i, (h.entry?_iff l i).mpr ⟨s, hi, by rw [hn, Label.ofNat?_eq_some_iff.mp hofNat]⟩⟩

end Mirrors

/-- What compiling makes of a list of statements is true to the checked program, and closed. -/
theorem compile_mirrors (h : compile setting statements = .ok (c, log)) :
    ∃ p, Program.analyze setting.polite statements = .ok p ∧ p.statements = statements ∧ c.Mirrors setting p ∧
      c.Closed := by
  obtain ⟨p, hanalyze, rfl⟩ := compile_eq_ok h
  obtain ⟨hstatements, hsound⟩ := Program.analyze_ok hanalyze
  have hlabels := (Program.analyze_eq_ok hanalyze).1
  rw [← hstatements] at hlabels
  have hmirrors := (mirrors_compile hsound hlabels : Mirrors _ setting p)
  exact ⟨p, hanalyze, hstatements, hmirrors, hmirrors.closed hsound⟩

def Compiled (c : Chunk) : Prop := ∃ setting statements log, compile setting statements = .ok (c, log)

theorem Compiled.closed (h : c.Compiled) : c.Closed := by
  obtain ⟨setting, statements, log, h⟩ := h
  obtain ⟨_, -, -, -, hclosed⟩ := compile_mirrors h
  exact hclosed

end Chunk

end Intercal
