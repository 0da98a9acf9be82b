import Intercal.Proofs.Addressing
import Intercal.Proofs.Touches
import Intercal.Proofs.Turing

namespace Intercal

theorem filterMap_getElem? {α : Type} (xs : List α) : (List.range xs.length).filterMap (xs[·]?) = xs := by
  have hall : (List.range xs.length).map (xs[·]?) = xs.map some := by
    apply List.ext_getElem
    · rw [List.length_map, List.length_range, List.length_map]
    · intro k hk hk'
      simp
  calc (List.range xs.length).filterMap (xs[·]?)
      = ((List.range xs.length).map (xs[·]?)).filterMap id := by rw [List.filterMap_map]; rfl
    _ = xs := by rw [hall, List.filterMap_map]; exact List.filterMap_some

def Grid.listed (g : Grid) : List Word :=
  (List.range (count g.dimensions)).filterMap fun n ↦ g.get? (subscriptsAt g.dimensions n)

theorem Grid.Shaped.listed {g : Grid} (hg : g.Shaped) : g.listed = g.elements.toList := by
  have hget (n : Nat) (hn : n ∈ List.range (count g.dimensions)) :
      g.get? (subscriptsAt g.dimensions n) = g.elements.toList[n]? := by
    rw [List.mem_range] at hn
    have hoffset := offset?_of_within (within_subscriptsAt hn)
    rw [rowMajor_subscriptsAt hn] at hoffset
    rw [get?, hoffset, Array.getElem?_toList]
    rfl
  rw [Grid.listed, List.filterMap_congr hget, ← hg.size, ← Array.length_toList]
  exact filterMap_getElem? _

namespace Store

variable {s t : Store} {v : Variable} {g : Grid} {c : Change} {r : Request}

theorem Change.Replaces.streams (h : c.Replaces s t) :
    t.input = s.input ∧ t.lastIn = s.lastIn ∧ t.lastOut = s.lastOut := by
  cases h <;> exact ⟨rfl, rfl, rfl⟩

theorem keeps_lastOut_act (p : UInt8) (c : Change) : Keeps (·.lastOut = p) (fun _ ↦ True) c.act :=
  fun s hs ↦ ⟨(act_replaces c s).streams.2.2.trans hs, fun _ _ ↦ trivial⟩

theorem keeps_lastOut_readByte (p : UInt8) : Keeps (·.lastOut = p) (fun _ ↦ True) readByte := by
  refine fun s hs ↦ ⟨?_, fun _ _ ↦ trivial⟩
  unfold run readByte
  split <;> exact hs

theorem keeps_lastOut_readLine (p : UInt8) : Keeps (·.lastOut = p) (fun _ ↦ True) readLine := by
  refine fun s hs ↦ ⟨?_, fun _ _ ↦ trivial⟩
  unfold run readLine
  split <;> exact hs

/-- The octet written last changes only when an array is written out. -/
theorem lastOut_serve (hr : ∀ v, r ≠ .readOutArray v) (s : Store) : (s.run r.serve).2.lastOut = s.lastOut := by
  have haside : Aside (·.lastOut = s.lastOut) fun _ ↦ True := ⟨fun _ hs ↦ hs, fun _ ↦ trivial⟩
  have hact := keeps_lastOut_act s.lastOut
  refine (haside.request (fun _ ↦ trivial) (fun hstreams ↦ ?_) fun c _ ↦ hact c) s rfl |>.1
  cases r with
  | readOut x => exact Keeps.done fun t ht ↦ ⟨ht, fun _ _ ↦ trivial⟩
  | readOutArray v => exact absurd rfl (hr v)
  | writeIn v =>
    have hlast (b : UInt8) : Keeps (·.lastOut = s.lastOut) (fun _ ↦ True) (modify ({ · with lastIn := b })) :=
      fun t ht ↦ ⟨ht, fun _ _ ↦ trivial⟩
    apply Keeps.done
    exact haside.writeIn (keeps_lastOut_readByte _) hlast (keeps_lastOut_readLine _) (fun x ↦ hact (.write v x))
      fun is x ↦ hact (.writeElement v is x)
  | _ => cases hstreams

/-- The input and the octet read last change only when something is read. -/
theorem input_serve (hr : ∀ v, r ≠ .writeIn v) (s : Store) :
    (s.run r.serve).2.input = s.input ∧ (s.run r.serve).2.lastIn = s.lastIn := by
  have haside : Aside (fun t ↦ t.input = s.input ∧ t.lastIn = s.lastIn) fun _ ↦ True :=
    ⟨fun _ hs ↦ hs, fun _ ↦ trivial⟩
  refine (haside.request (fun _ ↦ trivial) (fun hstreams ↦ ?_) fun c _ t ht ↦ ⟨?_, fun _ _ ↦ trivial⟩) s ⟨rfl, rfl⟩ |>.1
  · cases r with
    | readOut x => exact Keeps.done fun t ht ↦ ⟨ht, fun _ _ ↦ trivial⟩
    | readOutArray v =>
      refine Keeps.done fun t ht ↦ ⟨?_, fun _ _ ↦ trivial⟩
      unfold run readOutArray
      split <;> exact ht
    | writeIn v => exact absurd rfl (hr v)
    | _ => cases hstreams
  · obtain ⟨hinput, hlastIn, -⟩ := (act_replaces c t).streams
    exact ⟨hinput.trans ht.1, hlastIn.trans ht.2⟩

def row (s : Store) (v : Variable) : List Word := (s.grid v).toOption.elim [] Grid.listed

theorem row_of_grid (hs : s.Sound) (hg : s.grid v = .ok g) : s.row v = g.elements.toList := by
  rw [row, hg]
  exact (hs.grid hg).shaped.listed

theorem row_of_get? (h : t.arrays.get? v = s.arrays.get? v) : t.row v = s.row v := by
  rw [row, row, grid, grid, h]

namespace Request

def printsArray : Request → Bool
  | .readOutArray _ => true
  | _ => false

def printed (s : Store) : Request → List Word
  | .readOutArray v => s.row v
  | _ => []

def stored (s : Store) : Request → List Word
  | .writeIn v => (s.run (Store.writeIn v)).2.row v
  | _ => []

/-- Whether something else is read than octets into an array that takes them. -/
def strays (s : Store) : Request → Bool
  | .writeIn v => !(v.kind.isArray && !(s.cell v).ignored && (s.run (Store.writeIn v)).1.isOk)
  | _ => false

end Request

def gather (f : Store → Request → List Word) (s : Store) : List Request → List Word
  | [] => []
  | r :: rs => f s r ++ gather f (s.run r.serve).2 rs

def emitted (s : Store) (rs : List Request) : List UInt8 :=
  (rs.zip (serve s rs).1).flatMap fun p ↦ if p.1.printsArray then p.2.written else []

theorem serve_cons (s : Store) (r : Request) (rs : List Request) : serve s (r :: rs) =
    (⟨(s.run r.serve).1, (s.run r.serve).2.output.toList.drop s.output.size⟩ :: (serve (s.run r.serve).2 rs).1,
      (serve (s.run r.serve).2 rs).2) := rfl

theorem serve_append (s : Store) (rs ts : List Request) : serve s (rs ++ ts) =
    ((serve s rs).1 ++ (serve (serve s rs).2 ts).1, (serve (serve s rs).2 ts).2) := by
  induction rs generalizing s with
  | nil => rfl
  | cons r rs ih =>
    rw [List.cons_append, serve_cons, ih]
    rfl

theorem gather_append (f : Store → Request → List Word) (s : Store) (rs ts : List Request) :
    gather f s (rs ++ ts) = gather f s rs ++ gather f (serve s rs).2 ts := by
  induction rs generalizing s with
  | nil => rfl
  | cons r rs ih =>
    rw [List.cons_append, gather, gather, ih, List.append_assoc]
    rfl

theorem gather_eq_nil {f : Store → Request → List Word} {rs : List Request} (h : ∀ s, ∀ r ∈ rs, f s r = [])
    (s : Store) : gather f s rs = [] := by
  induction rs generalizing s with
  | nil => rfl
  | cons r rs ih =>
    have hrest (t : Store) := (List.forall_mem_cons.mp (h t)).2
    rw [gather, (List.forall_mem_cons.mp (h s)).1, ih hrest]
    rfl

theorem output_readOutArray (hs : s.Sound) (v : Variable) :
    (s.run (readOutArray v)).2.output.toList = s.output.toList ++ spoken s.lastOut (s.row v) ∧
      (s.run (readOutArray v)).2.lastOut = s.lastOut - UInt8.ofNat (total (s.row v)) := by
  unfold run readOutArray
  cases hg : s.grid v with
  | error f =>
    have hrow : s.row v = [] := by
      rw [row, hg]
      rfl
    rw [hrow]
    exact ⟨(List.append_nil _).symm, (UInt8.sub_zero _).symm⟩
  | ok g =>
    rw [row_of_grid hs hg, ← map_turing, ← getLast_turing]
    exact ⟨Array.toList_appendList, rfl⟩

theorem Request.printed_of_ne (hr : ∀ v, r ≠ .readOutArray v) (s : Store) :
    r.printsArray = false ∧ r.printed s = [] := by
  cases r with
  | readOutArray v => exact absurd rfl (hr v)
  | _ => exact ⟨rfl, rfl⟩

theorem Request.printed_serve (hs : s.Sound) (r : Request) :
    (if r.printsArray then (s.run r.serve).2.output.toList.drop s.output.size else []) =
        spoken s.lastOut (r.printed s) ∧
      (s.run r.serve).2.lastOut = s.lastOut - UInt8.ofNat (total (r.printed s)) := by
  by_cases hr : ∃ v, r = .readOutArray v
  · obtain ⟨v, rfl⟩ := hr
    obtain ⟨houtput, hlast⟩ := output_readOutArray hs v
    rw [Request.serve, run_done, houtput]
    exact ⟨List.drop_left, hlast⟩
  · have hother (v : Variable) (hv : r = .readOutArray v) : False := hr ⟨v, hv⟩
    obtain ⟨hprints, hprinted⟩ := printed_of_ne hother s
    rw [hprints, hprinted, lastOut_serve hother]
    exact ⟨rfl, (UInt8.sub_zero _).symm⟩

/-- The octets that arrays write are told by the elements alone, however these are spread over arrays and whatever else
is served between them. -/
theorem emitted_eq (hs : s.Sound) (rs : List Request) :
    emitted s rs = spoken s.lastOut (gather Request.printed s rs) := by
  induction rs generalizing s with
  | nil => rfl
  | cons r rs ih =>
    have hnext := (steady_sound.request (fun _ ↦ trivial) r s hs).1
    obtain ⟨hfirst, hlast⟩ := r.printed_serve hs
    rw [gather, spoken_append, ← hlast, ← ih hnext, ← hfirst]
    rfl

structure Open (v : Variable) (g : Grid) (s : Store) : Prop where
  isArray : v.kind.isArray = true
  grid : s.grid v = .ok g
  ignored : (s.cell v).ignored = false

theorem Open.of_get? (h : Open v g s) (hget : t.arrays.get? v = s.arrays.get? v) : Open v g t := by
  obtain ⟨hv, hg, hignored⟩ := h
  refine ⟨hv, ?_, ?_⟩
  · rwa [Store.grid, hget]
  · rw [ignored_array hv, Bank.cell] at hignored ⊢
    rwa [hget]

theorem Open.writeElement (h : Open v g s) {subscripts : List Nat} {i : Nat} {x : Word} (hx : v.Fits x)
    (hi : Grid.offset? g.dimensions subscripts = some i) :
    ∃ t, s.run (writeElement v subscripts x) = (.ok (), t) ∧ Open v (g.set i x) t ∧ t.input = s.input ∧
      t.lastIn = s.lastIn := by
  obtain ⟨t, hrun, hgrid, -⟩ := run_writeElement h.isArray h.grid h.ignored hx hi
  have hreplaces := writeElement_replaces s v subscripts x
  rw [hrun] at hreplaces
  obtain ⟨hinput, hlastIn, -⟩ := hreplaces.streams
  refine ⟨t, hrun, ⟨h.isArray, hgrid, ?_⟩, hinput, hlastIn⟩
  rcases hreplaces.cell v with hcell | ⟨-, hignored, -⟩
  · rw [hcell, h.ignored]
  · rw [hignored, h.ignored]

/-- Octets have room in all kinds of array. -/
theorem fits_widen (v : Variable) (b : UInt8) : v.Fits (widen b) := by
  intro _
  have hb := b.toNat_lt
  rw [toNat_widen]
  omega

theorem run_fill_cons {b : UInt8} {rest : List UInt8} (hinput : s.input = b :: rest) (i n : Nat) :
    s.run (fill v i (n + 1)) = Store.run { s with input := rest, lastIn := b }
      (writeElement v [i] (widen (b - s.lastIn)) >>= fun _ ↦ fill v (i + 1) n) := by
  have hbyte : s.run readByte = (.ok b, { s with input := rest }) := by
    simp only [run, readByte, hinput]
  rw [fill, run_bind_ok hbyte]
  rfl

theorem run_fill_nil (hinput : s.input = []) (i n : Nat) : s.run (fill v i (n + 1)) = (.error .endOfInput, s) := by
  have hbyte : s.run readByte = (.error .endOfInput, s) := by
    simp only [run, readByte, hinput]
  rw [fill, run_bind_error hbyte]

theorem offset?_single {n i : Nat} (h : i < n) : Grid.offset? [n] [i + 1] = some i := by
  have hi : 1 ≤ i + 1 ∧ i + 1 ≤ n := by omega
  rw [Grid.offset?, Grid.offsetFrom, if_pos hi, Grid.offsetFrom, Nat.zero_mul, Nat.zero_add, Nat.add_sub_cancel]

theorem set_middle (n : Nat) (front back : List Word) (x y : Word) :
    Grid.set ⟨[n], (front ++ y :: back).toArray⟩ front.length x = ⟨[n], (front ++ [x] ++ back).toArray⟩ := by
  simp [Grid.set]

/-- The rest of an array is filled from the input. -/
theorem Open.fill {n : Nat} {front back : List Word} {octets rest : List UInt8}
    (h : Open v ⟨[n], (front ++ back).toArray⟩ s) (hn : front.length + back.length = n)
    (hinput : s.input = octets ++ rest) (hlength : octets.length = back.length) :
    ∃ t, s.run (fill v (front.length + 1) back.length) = (.ok (), t) ∧
      Open v ⟨[n], (front ++ differences s.lastIn octets).toArray⟩ t ∧ t.input = rest ∧
      t.lastIn = octets.getLast?.getD s.lastIn := by
  induction octets generalizing s front back with
  | nil =>
    obtain rfl : back = [] := List.length_eq_zero_iff.mp hlength.symm
    exact ⟨s, rfl, h, hinput, rfl⟩
  | cons b octets ih =>
    obtain ⟨y, back, rfl⟩ := List.exists_cons_of_length_eq_add_one hlength.symm
    rw [List.cons_append] at hinput
    have hlt : front.length < n := by
      rw [List.length_cons] at hn
      omega
    have hread : Open v ⟨[n], (front ++ y :: back).toArray⟩ { s with input := octets ++ rest, lastIn := b } :=
      h.of_get? rfl
    obtain ⟨t, hrun, ht, htinput, htlast⟩ := hread.writeElement (fits_widen v (b - s.lastIn)) (offset?_single hlt)
    rw [set_middle] at ht
    have hfront : (front ++ [widen (b - s.lastIn)]).length = front.length + 1 := List.length_append
    obtain ⟨u, hfill, hu, huinput, hulast⟩ := ih ht
      (by rw [hfront]; rw [List.length_cons] at hn; omega) htinput (Nat.succ.inj hlength)
    rw [htlast] at hu hulast
    refine ⟨u, ?_, ?_, huinput, ?_⟩
    · rw [List.length_cons, run_fill_cons hinput, run_bind_ok hrun, ← hfront]
      exact hfill
    · rw [List.append_assoc] at hu
      exact hu
    · rw [hulast, List.getLast?_cons]
      rfl

theorem fill_short {i n : Nat} (hinput : s.input.length < n) : (s.run (fill v i n)).1.isOk = false := by
  induction n generalizing s i with
  | zero => exact absurd hinput (Nat.not_lt_zero _)
  | succ n ih =>
    rcases hs : s.input with _ | ⟨b, rest⟩
    · rw [run_fill_nil hs]
      rfl
    · rw [run_fill_cons hs]
      have hstreams :=
        (writeElement_replaces { s with input := rest, lastIn := b } v [i] (widen (b - s.lastIn))).streams
      rw [hs, List.length_cons] at hinput
      rcases hrun : Store.run { s with input := rest, lastIn := b } (writeElement v [i] (widen (b - s.lastIn))) with
        ⟨f | _, t⟩
      · rw [run_bind_error hrun]
        rfl
      · rw [run_bind_ok hrun]
        rw [hrun] at hstreams
        apply ih
        rw [hstreams.1]
        exact Nat.lt_of_succ_lt_succ hinput

theorem run_writeIn_array (hv : v.kind.isArray = true) (s : Store) :
    s.run (writeIn v) = match s.grid v with
      | .ok ⟨[n], _⟩ => s.run (fill v 1 n)
      | .ok _ => (.error (.hyperspace v), s)
      | .error f => (.error f, s) := by
  have hget : s.run (getThe Store) = (.ok s, s) := rfl
  rw [writeIn, hv, if_pos rfl, run_bind_ok hget]
  rcases s.grid v with f | ⟨_ | ⟨n, _ | ⟨m, ds⟩⟩, elements⟩ <;> rfl

/-- An array of one dimension takes as many octets from the input as it has elements, if there are so many. -/
theorem Open.writeIn {n : Nat} {elements : Array Word} {octets rest : List UInt8} (h : Open v ⟨[n], elements⟩ s)
    (hsize : elements.size = n) (hinput : s.input = octets ++ rest) (hlength : octets.length = n) :
    ∃ t, s.run (writeIn v) = (.ok (), t) ∧ Open v ⟨[n], (differences s.lastIn octets).toArray⟩ t ∧ t.input = rest ∧
      t.lastIn = octets.getLast?.getD s.lastIn := by
  have hlist : elements.toList.length = n := hsize
  have hopen : Open v ⟨[n], ([] ++ elements.toList).toArray⟩ s := h
  have hfill := hopen.fill (by rw [List.length_nil, hlist, Nat.zero_add]) hinput (hlength.trans hlist.symm)
  rw [hlist] at hfill
  rw [run_writeIn_array h.isArray, h.grid]
  exact hfill

/-- What is read into an array, and what is left. -/
theorem Open.of_writeIn (hs : s.Sound) (h : Open v g s) (hok : (s.run (Store.writeIn v)).1.isOk = true) :
    ∃ octets t, s.run (Store.writeIn v) = (.ok (), t) ∧ s.input = octets ++ t.input ∧
      t.row v = differences s.lastIn octets ∧ t.lastIn = octets.getLast?.getD s.lastIn := by
  have hsize := (hs.grid h.grid).shaped.size
  have hrun := run_writeIn_array h.isArray s
  rw [h.grid] at hrun
  split at hrun
  · next n elements hg =>
    cases hg
    by_cases hn : n ≤ s.input.length
    · have hlength : (s.input.take n).length = n := by rw [List.length_take, Nat.min_eq_left hn]
      have hcount : elements.size = n := hsize.trans (Nat.one_mul n)
      obtain ⟨t, ht, hopen, hinput, hlast⟩ := h.writeIn hcount (List.take_append_drop n s.input).symm hlength
      have hsound := (steady_sound.writeIn v).holds hs ht
      refine ⟨s.input.take n, t, ht, ?_, ?_, hlast⟩
      · rw [hinput, List.take_append_drop]
      · rw [row_of_grid hsound hopen.grid]
    · rw [hrun, fill_short (Nat.not_le.mp hn)] at hok
      cases hok
  all_goals
    rw [hrun] at hok
    cases hok

theorem open_of_not_strays (h : Request.strays s (.writeIn v) = false) :
    ∃ g, Open v g s ∧ (s.run (writeIn v)).1.isOk = true := by
  rw [Request.strays, Bool.not_eq_false', Bool.and_eq_true, Bool.and_eq_true, Bool.not_eq_true'] at h
  obtain ⟨⟨hv, hignored⟩, hok⟩ := h
  cases hg : s.grid v with
  | ok g => exact ⟨g, ⟨hv, hg, hignored⟩, hok⟩
  | error f =>
    rw [run_writeIn_array hv, hg] at hok
    cases hok

/-- The elements that are read are told by the octets alone, however these are spread over arrays and whatever else is
served between them. -/
theorem stored_eq (hs : s.Sound) {rs : List Request} (h : sometime Request.strays s rs = false) :
    ∃ octets, s.input = octets ++ (serve s rs).2.input ∧
      gather Request.stored s rs = differences s.lastIn octets ∧
      (serve s rs).2.lastIn = octets.getLast?.getD s.lastIn := by
  induction rs generalizing s with
  | nil => exact ⟨[], rfl, rfl, rfl⟩
  | cons r rs ih =>
    rw [sometime, Bool.or_eq_false_iff] at h
    have hnext := (steady_sound.request (fun _ ↦ trivial) r s hs).1
    obtain ⟨octets, hinput, hstored, hlast⟩ := ih hnext h.2
    rw [gather, hstored, serve_cons]
    by_cases hr : ∃ v, r = .writeIn v
    · obtain ⟨v, rfl⟩ := hr
      obtain ⟨g, hopen, hok⟩ := open_of_not_strays h.1
      obtain ⟨front, t, ht, htinput, hrow, htlast⟩ := hopen.of_writeIn hs hok
      rw [Request.serve, run_done, ht] at hinput hlast ⊢
      refine ⟨front ++ octets, ?_, ?_, ?_⟩
      · rw [htinput, hinput, List.append_assoc]
      · rw [Request.stored, ht, hrow, htlast, differences_append]
      · rw [hlast, htlast, List.getLast?_append]
        cases octets.getLast? <;> rfl
    · have hother (v : Variable) (hv : r = .writeIn v) : False := hr ⟨v, hv⟩
      obtain ⟨hsame, hlastIn⟩ := input_serve hother s
      have hnone : r.stored s = [] := by
        cases r with
        | writeIn v => exact absurd rfl (hother v)
        | _ => rfl
      rw [hsame] at hinput
      rw [hlastIn] at hlast
      rw [hnone, hlastIn]
      exact ⟨octets, hinput, rfl, hlast⟩

theorem ignored_remember (s : Store) (v : Variable) : ((s.run (remember v)).2.cell v).ignored = false := by
  have hbank {α : Type} [Inhabited α] (b : Bank α) : ((b.remember v).cell v).ignored = false := by
    unfold Bank.remember
    split
    · rw [Bank.cell_insert_self]
    · next hget =>
      rw [Bank.cell, hget]
      rfl
  unfold run remember cell
  split
  · exact hbank s.arrays
  · exact hbank s.scalars

theorem run_redimension {ds : List Nat} (hv : v.kind.isArray = true) (hignored : (s.cell v).ignored = false)
    (hnonempty : ds ≠ []) (hpositive : 0 ∉ ds) (hsmall : 4 * Grid.count ds < 0x8000000000000000) :
    ∃ t, s.run (redimension v ds) = (.ok (), t) ∧ Open v (.zero ds) t := by
  rw [ignored_array hv] at hignored
  refine ⟨{ s with arrays := (s.arrays.touch v).insert v { s.arrays.cell v with value := some (.zero ds) } },
    ?_, hv, ?_, ?_⟩
  · have hdimensions : ¬ (ds.isEmpty || ds.contains 0) = true := by
      rw [Bool.or_eq_true, List.isEmpty_iff, List.contains_iff_mem]
      exact not_or.mpr ⟨hnonempty, hpositive⟩
    have hcount : ¬ 0x10000000000000000 ≤ Grid.count ds := by omega
    have hoctets : ¬ 0x8000000000000000 ≤ 4 * Grid.count ds := by omega
    simp only [run, redimension, hv, Bool.not_true, Bool.false_eq_true, if_false, hdimensions, hcount, hignored,
      hoctets]
  · exact grid_eq_ok.mpr ⟨_, Table.get?_insert_self _ _ _, rfl⟩
  · rw [ignored_array hv, Bank.cell_insert_self]
    exact hignored

theorem run_done_ok {a : Action Unit} (h : s.run a = (.ok (), t)) : s.run (Request.done a) = (.ok .done, t) :=
  run_bind_ok h _

theorem run_readOutArray (hg : s.grid v = .ok g) :
    ∃ t, s.run (readOutArray v) = (.ok (), t) ∧ t.arrays = s.arrays := by
  unfold run readOutArray
  rw [hg]
  exact ⟨_, rfl, rfl⟩

def Succeeds (s : Store) (rs : List Request) : Prop := ∀ a ∈ (serve s rs).1, a.reply.isOk = true

theorem Succeeds.cons {reply : Reply} {rs : List Request} (h : s.run r.serve = (.ok reply, t)) (ht : t.Succeeds rs) :
    s.Succeeds (r :: rs) := by
  rw [Succeeds, serve_cons, h, List.forall_mem_cons]
  exact ⟨rfl, ht⟩

theorem Succeeds.append {rs ts : List Request} (hrs : s.Succeeds rs) (hts : (serve s rs).2.Succeeds ts) :
    s.Succeeds (rs ++ ts) := by
  rw [Succeeds, serve_append, List.forall_mem_append]
  exact ⟨hrs, hts⟩

/-- Writes elements out one at a time, from an array of one element. -/
def dictation (v : Variable) (xs : List Word) : List Request :=
  .remember v :: .redimension v [1] :: xs.flatMap fun x ↦ [.writeElement v [1] x, .readOutArray v]

theorem Open.dictate {xs : List Word} {y : Word} (hs : s.Sound) (h : Open v ⟨[1], #[y]⟩ s) (hxs : ∀ x ∈ xs, v.Fits x) :
    s.Succeeds (xs.flatMap fun x ↦ [.writeElement v [1] x, .readOutArray v]) ∧
      gather Request.printed s (xs.flatMap fun x ↦ [.writeElement v [1] x, .readOutArray v]) = xs := by
  induction xs generalizing s y with
  | nil => exact ⟨nofun, rfl⟩
  | cons x xs ih =>
    rw [List.forall_mem_cons] at hxs
    obtain ⟨t, hwrite, ht, -⟩ := h.writeElement hxs.1 (offset?_single Nat.one_pos)
    have htsound := (steady_sound.writeElement v [1] x).holds hs hwrite
    obtain ⟨u, hread, harrays⟩ := run_readOutArray ht.grid
    have husound := (steady_sound.readOutArray v).holds htsound hread
    obtain ⟨hsucceeds, hprinted⟩ := ih husound (ht.of_get? (by rw [harrays])) hxs.2
    have hwrite' : s.run (Request.writeElement v [1] x).serve = (.ok .done, t) := run_done_ok hwrite
    have hread' : t.run (Request.readOutArray v).serve = (.ok .done, u) := run_done_ok hread
    refine ⟨.cons hwrite' (.cons hread' hsucceeds), ?_⟩
    rw [List.flatMap_cons, List.cons_append, List.cons_append, List.nil_append, gather, hwrite', gather, hread',
      hprinted, Request.printed, row_of_grid htsound ht.grid]
    rfl

theorem dictation_prints (hs : s.Sound) (hv : v.kind.isArray = true) {xs : List Word} (hxs : ∀ x ∈ xs, v.Fits x) :
    s.Succeeds (dictation v xs) ∧ gather Request.printed s (dictation v xs) = xs := by
  obtain ⟨t, ht⟩ : ∃ t, s.run (remember v) = (.ok (), t) := by
    unfold run remember
    split <;> exact ⟨_, rfl⟩
  have htsound := (steady_sound.remember v).holds hs ht
  have hignored := ignored_remember s v
  rw [ht] at hignored
  obtain ⟨u, hu, hopen⟩ := run_redimension hv hignored (List.cons_ne_nil 1 []) (by decide) (by decide)
  have husound := (steady_sound.redimension v [1]).holds htsound hu
  obtain ⟨hsucceeds, hprinted⟩ := hopen.dictate husound hxs
  have ht' : s.run (Request.remember v).serve = (.ok .done, t) := run_done_ok ht
  have hu' : t.run (Request.redimension v [1]).serve = (.ok .done, u) := run_done_ok hu
  refine ⟨.cons ht' (.cons hu' hsucceeds), ?_⟩
  rw [dictation, gather, ht', gather, hu', hprinted]
  rfl

theorem get?_serve_writeIn {w : Variable} (h : w ≠ v) (s : Store) :
    (s.run (Request.writeIn v).serve).2.arrays.get? w = s.arrays.get? w := by
  refine (Request.get?_serve (fun c hc ↦ ?_) s).2
  rcases hc with ⟨x, rfl⟩ | ⟨is, x, rfl⟩ <;> exact h.symm

theorem get?_serve_writeIns {vs : List Variable} (hv : v ∉ vs) (s : Store) :
    (serve s (vs.map .writeIn)).2.arrays.get? v = s.arrays.get? v := by
  induction vs generalizing s with
  | nil => rfl
  | cons w vs ih =>
    rw [List.mem_cons, not_or] at hv
    rw [List.map_cons, serve_cons, ih hv.2, get?_serve_writeIn hv.1]

theorem Open.serve_writeIn {n : Nat} {elements : Array Word} (hs : s.Sound) (h : Open v ⟨[n], elements⟩ s)
    (hinput : (s.row v).length ≤ s.input.length) :
    ∃ t g, s.run (Request.writeIn v).serve = (.ok .done, t) ∧ Request.strays s (.writeIn v) = false ∧ Open v g t ∧
      t.Sound ∧ t.input = s.input.drop (s.row v).length := by
  have hsize : elements.size = n := (hs.grid h.grid).shaped.size.trans (Nat.one_mul n)
  have hrow : (s.row v).length = n := by
    rw [row_of_grid hs h.grid]
    exact hsize
  rw [hrow] at hinput ⊢
  have hlength : (s.input.take n).length = n := by rw [List.length_take, Nat.min_eq_left hinput]
  obtain ⟨t, hrun, ht, htinput, -⟩ := h.writeIn hsize (List.take_append_drop n s.input).symm hlength
  refine ⟨t, _, run_done_ok hrun, ?_, ht, (steady_sound.writeIn v).holds hs hrun, htinput⟩
  rw [Request.strays, h.isArray, h.ignored, hrun]
  rfl

/-- Arrays that are different from each other are filled one after another. -/
theorem serve_writeIns {vs : List Variable} (hs : s.Sound) (hdistinct : vs.Nodup)
    (hvs : ∀ v ∈ vs, ∃ n elements, Open v ⟨[n], elements⟩ s) (hinput : (vs.flatMap s.row).length ≤ s.input.length) :
    s.Succeeds (vs.map .writeIn) ∧ sometime Request.strays s (vs.map .writeIn) = false ∧
      (serve s (vs.map .writeIn)).2.input = s.input.drop (vs.flatMap s.row).length ∧
      ∀ v ∈ vs, ∃ g, (serve s (vs.map .writeIn)).2.grid v = .ok g := by
  induction vs generalizing s with
  | nil => exact ⟨nofun, rfl, rfl, nofun⟩
  | cons v vs ih =>
    rw [List.nodup_cons] at hdistinct
    rw [List.forall_mem_cons] at hvs
    obtain ⟨⟨n, elements, hopen⟩, hvs⟩ := hvs
    rw [List.flatMap_cons, List.length_append] at hinput ⊢
    obtain ⟨t, g, hserve, hfirst, ht, htsound, htinput⟩ := hopen.serve_writeIn hs (by omega)
    have hothers (w : Variable) (hw : w ∈ vs) : t.arrays.get? w = s.arrays.get? w := by
      have hne : w ≠ v := fun h ↦ hdistinct.1 (h ▸ hw)
      have hget := get?_serve_writeIn hne s
      rwa [hserve] at hget
    have hrows : vs.flatMap t.row = vs.flatMap s.row := by
      rw [List.flatMap_def, List.flatMap_def, List.map_congr_left fun w hw ↦ row_of_get? (hothers w hw)]
    have hopens : ∀ w ∈ vs, ∃ m es, Open w ⟨[m], es⟩ t := by
      intro w hw
      obtain ⟨m, es, hw'⟩ := hvs w hw
      exact ⟨m, es, hw'.of_get? (hothers w hw)⟩
    have hlong : (vs.flatMap t.row).length ≤ t.input.length := by
      rw [hrows, htinput, List.length_drop]
      omega
    obtain ⟨hsucceeds, hstrays, hrest, hgrids⟩ := ih htsound hdistinct.2 hopens hlong
    rw [List.map_cons, serve_cons, hserve]
    refine ⟨.cons hserve hsucceeds, ?_, ?_, ?_⟩
    · rw [sometime, hserve, hstrays, hfirst]
      rfl
    · rw [hrest, hrows, htinput, List.drop_drop]
    · have hlast := ht.of_get? (get?_serve_writeIns hdistinct.1 t)
      exact List.forall_mem_cons.mpr ⟨⟨g, hlast.grid⟩, hgrids⟩

theorem stored_writeIns {vs : List Variable} (hdistinct : vs.Nodup) (s : Store) :
    gather Request.stored s (vs.map .writeIn) = vs.flatMap (serve s (vs.map .writeIn)).2.row := by
  induction vs generalizing s with
  | nil => rfl
  | cons v vs ih =>
    rw [List.nodup_cons] at hdistinct
    rw [List.map_cons, gather, serve_cons, ih hdistinct.2, List.flatMap_cons,
      row_of_get? (get?_serve_writeIns hdistinct.1 _), Request.serve, run_done]
    rfl

theorem serve_readOutArrays {vs : List Variable} (hvs : ∀ v ∈ vs, ∃ g, s.grid v = .ok g) :
    s.Succeeds (vs.map .readOutArray) ∧ gather Request.printed s (vs.map .readOutArray) = vs.flatMap s.row ∧
      (serve s (vs.map .readOutArray)).2.input = s.input := by
  induction vs generalizing s with
  | nil => exact ⟨nofun, rfl, rfl⟩
  | cons v vs ih =>
    rw [List.forall_mem_cons] at hvs
    obtain ⟨⟨g, hg⟩, hvs⟩ := hvs
    obtain ⟨t, hrun, harrays⟩ := run_readOutArray hg
    have hserve : s.run (Request.readOutArray v).serve = (.ok .done, t) := run_done_ok hrun
    have hrow : t.row = s.row := funext fun w ↦ row_of_get? (by rw [harrays])
    have hinput := (input_serve (r := .readOutArray v) nofun s).1
    rw [hserve] at hinput
    obtain ⟨hsucceeds, hprinted, hrest⟩ := ih fun w hw ↦ by
      obtain ⟨g', hg'⟩ := hvs w hw
      exact ⟨g', by rw [grid, harrays]; exact hg'⟩
    rw [List.map_cons, gather, serve_cons, hserve, hprinted, hrest, hrow]
    exact ⟨.cons hserve hsucceeds, rfl, hinput⟩

theorem spoken_differences (p q : UInt8) (octets : List UInt8) :
    spoken p (differences q octets) = octets.map fun b ↦ reverseBits (p + q - b) := by
  rw [← map_turing, turing_differences, List.map_map]
  rfl

/-- What is read into arrays and then written out of them. -/
theorem emitted_copies {vs : List Variable} (hs : s.Sound) (hdistinct : vs.Nodup)
    (hvs : ∀ v ∈ vs, ∃ n elements, Open v ⟨[n], elements⟩ s) (hinput : (vs.flatMap s.row).length ≤ s.input.length) :
    s.Succeeds (vs.map .writeIn ++ vs.map .readOutArray) ∧
      (serve s (vs.map .writeIn ++ vs.map .readOutArray)).2.input = s.input.drop (vs.flatMap s.row).length ∧
      emitted s (vs.map .writeIn ++ vs.map .readOutArray) =
        (s.input.take (vs.flatMap s.row).length).map fun b ↦ reverseBits (s.lastOut + s.lastIn - b) := by
  obtain ⟨hfilled, hstrays, hrest, hgrids⟩ := serve_writeIns hs hdistinct hvs hinput
  obtain ⟨hwritten, hprinted, hkept⟩ := serve_readOutArrays hgrids
  obtain ⟨octets, hoctets, hstored, -⟩ := stored_eq hs hstrays
  have hnone : gather Request.printed s (vs.map .writeIn) = [] := by
    apply gather_eq_nil
    intro t r hr
    obtain ⟨v, -, rfl⟩ := List.mem_map.mp hr
    rfl
  have htake : s.input.take (vs.flatMap s.row).length = octets := by
    rw [hrest] at hoctets
    exact List.append_cancel_right ((List.take_append_drop _ s.input).trans hoctets)
  refine ⟨hfilled.append hwritten, ?_, ?_⟩
  · rw [serve_append, hkept, hrest]
  · rw [emitted_eq hs, gather_append, hnone, hprinted, ← stored_writeIns hdistinct, hstored, List.nil_append,
      spoken_differences, htake]

/-- Arrays are written as one stream of elements, however these are spread over them, each octet being what is left of
the first one after all elements so far, and each octet string is written by just one row of octets. Arrays are read as
one stream as well, the elements adding up to the octets. So what is read into arrays and written out of them comes out
as the difference from a constant. -/
theorem turing_text_telescopes (hs : s.Reachable) :
    (∀ rs, emitted s rs = spoken s.lastOut (gather Request.printed s rs)) ∧
    (∀ t rs ts, t.Reachable → t.lastOut = s.lastOut →
      gather Request.printed t ts = gather Request.printed s rs → emitted t ts = emitted s rs) ∧
    (∀ v octets, v.kind.isArray = true → ∃! xs : List Word, (∀ x ∈ xs, x.toNat ≤ 255) ∧ s.Succeeds (dictation v xs) ∧
      gather Request.printed s (dictation v xs) = xs ∧ emitted s (dictation v xs) = octets) ∧
    (∀ rs, sometime Request.strays s rs = false → ∃ octets, s.input = octets ++ (serve s rs).2.input ∧
      octets.length = (gather Request.stored s rs).length ∧ ∀ k b, octets[k]? = some b →
        UInt8.ofNat (total ((gather Request.stored s rs).take (k + 1))) = b - s.lastIn) ∧
    ∀ vs : List Variable, vs.Nodup → (∀ v ∈ vs, ∃ n elements, Open v ⟨[n], elements⟩ s) →
      (vs.flatMap s.row).length ≤ s.input.length →
      s.Succeeds (vs.map .writeIn ++ vs.map .readOutArray) ∧
        (serve s (vs.map .writeIn ++ vs.map .readOutArray)).2.input = s.input.drop (vs.flatMap s.row).length ∧
        emitted s (vs.map .writeIn ++ vs.map .readOutArray) =
          (s.input.take (vs.flatMap s.row).length).map fun b ↦ reverseBits (s.lastOut + s.lastIn - b) := by
  have hsound := hs.sound
  refine ⟨emitted_eq hsound, ?_, ?_, ?_, fun vs ↦ emitted_copies hsound⟩
  · intro t rs ts ht hlast hprinted
    rw [emitted_eq ht.sound, emitted_eq hsound, hlast, hprinted]
  · intro v octets hv
    obtain ⟨xs, ⟨hsmall, hspoken⟩, hunique⟩ := existsUnique_spoken s.lastOut octets
    have hfits : ∀ x ∈ xs, v.Fits x := fun x hx _ ↦ Nat.le_trans (hsmall x hx) (by decide)
    obtain ⟨hsucceeds, hprinted⟩ := dictation_prints hsound hv hfits
    refine ⟨xs, ⟨hsmall, hsucceeds, hprinted, ?_⟩, ?_⟩
    · rw [emitted_eq hsound, hprinted, hspoken]
    · rintro ys ⟨hys, -, hysprinted, hemitted⟩
      apply hunique
      rw [emitted_eq hsound, hysprinted] at hemitted
      exact ⟨hys, hemitted⟩
  · intro rs hrs
    obtain ⟨octets, hinput, hstored, -⟩ := stored_eq hsound hrs
    rw [hstored]
    exact ⟨octets, hinput, (length_differences _ _).symm, fun k b ↦ total_differences⟩

def letters : Store :=
  (serve { input := [7, 65, 66, 67] } [.redimension ⟨.hybrid, 2⟩ [1], .writeIn ⟨.hybrid, 2⟩, .readOutArray ⟨.hybrid, 2⟩,
    .readOutArray ⟨.hybrid, 2⟩, .redimension ⟨.tail, 1⟩ [2]]).2

theorem turing_text_telescopes_letters :
    let vs : List Variable := [⟨.tail, 1⟩, ⟨.hybrid, 2⟩]
    letters.Reachable ∧ letters.lastIn = 7 ∧ letters.lastOut = 242 ∧ letters.input = [65, 66, 67] ∧
      (∃! xs : List Word, (∀ x ∈ xs, x.toNat ≤ 255) ∧ letters.Succeeds (dictation ⟨.tail, 1⟩ xs) ∧
        gather Request.printed letters (dictation ⟨.tail, 1⟩ xs) = xs ∧
        emitted letters (dictation ⟨.tail, 1⟩ xs) = [72, 105]) ∧
      (∃ octets, letters.input = octets ++ (serve letters (vs.map .writeIn)).2.input ∧ octets.length = 3 ∧
        ∀ k b, octets[k]? = some b → UInt8.ofNat (total (([58, 1, 1] : List Word).take (k + 1))) = b - 7) ∧
      letters.Succeeds (vs.map .writeIn ++ vs.map .readOutArray) ∧
      emitted letters (vs.map .writeIn ++ vs.map .readOutArray) = [29, 237, 109] := by
  intro vs
  have hreachable : letters.Reachable := ⟨_, _, _, rfl⟩
  have hlastIn : letters.lastIn = 7 := by decide +kernel
  have hopen : ∀ v ∈ vs, ∃ n elements, Open v ⟨[n], elements⟩ letters :=
    List.forall_mem_cons.mpr ⟨⟨2, _, rfl, rfl, rfl⟩, List.forall_mem_singleton.mpr ⟨1, _, rfl, rfl, rfl⟩⟩
  have hstored : gather Request.stored letters (vs.map .writeIn) = [58, 1, 1] := by decide +kernel
  obtain ⟨-, -, hdictated, hread, hcopied⟩ := turing_text_telescopes hreachable
  have hoctets := hread (vs.map .writeIn) (by decide +kernel)
  rw [hstored, hlastIn] at hoctets
  obtain ⟨hsucceeds, -, hemitted⟩ := hcopied vs (by decide) hopen (by decide +kernel)
  refine ⟨hreachable, hlastIn, by decide +kernel, by decide +kernel, hdictated _ _ rfl, hoctets, hsucceeds, ?_⟩
  rw [hemitted]
  decide +kernel

end Store

end Intercal
