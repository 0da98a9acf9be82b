import Intercal.Expr.Parser
import Intercal.Proofs.Spelling

namespace Intercal

open Token

namespace Reader

variable {α β : Type} {ks ks' : List Kind} {a : α} {b : β} {P Q : Option Kind → Prop}

/-- From tokens of these kinds, with one behind them that may follow, the reader takes just these. -/
def Reads (r : Reader α) (ks : List Kind) (a : α) (next : Option Kind → Prop) : Prop :=
  ∀ ts rest : List Token, ts.map (·.kind) = ks → next (rest.head?.map (·.kind)) → r (ts ++ rest) = (some a, rest)

namespace Reads

theorem head?_append {ts : List Token} (h : ts.map (·.kind) = ks) (rest : List Token) :
    (ts ++ rest).head?.map (·.kind) = ks.head?.or (rest.head?.map (·.kind)) := by
  rw [List.head?_append, Option.map_or, ← List.head?_map, h]

theorem mono {r : Reader α} (h : Reads r ks a P) (hnext : ∀ k, Q k → P k) : Reads r ks a Q :=
  fun ts rest hts hrest ↦ h ts rest hts (hnext _ hrest)

theorem bind {r : Reader α} {f : α → Reader β} (hr : Reads r ks a P) (hf : Reads (f a) ks' b Q)
    (hnext : ∀ k, Q k → P (ks'.head?.or k)) : Reads (r >>= f) (ks ++ ks') b Q := by
  intro ts rest hts hrest
  obtain ⟨front, back, rfl, hfront, hback⟩ := List.map_eq_append_iff.mp hts
  have hstop : P ((back ++ rest).head?.map (·.kind)) := by
    rw [head?_append hback]
    exact hnext _ hrest
  rw [bind_eq, List.append_assoc, hr front (back ++ rest) hfront hstop]
  exact hf back rest hback hrest

theorem pure (a : α) : Reads (pure a) [] a P := by
  intro ts rest hts _
  cases List.map_eq_nil_iff.mp hts
  rfl

theorem pure_bind {f : α → Reader β} (hf : Reads (f a) ks b Q) : Reads (Pure.pure a >>= f) ks b Q := hf

theorem take (k : Kind) : Reads take [k] k fun _ ↦ True := by
  intro ts rest hts _
  obtain ⟨t, ts, rfl, rfl, hnil⟩ := List.map_eq_cons_iff.mp hts
  cases List.map_eq_nil_iff.mp hnil
  rfl

theorem takeIf_true (k : Kind) : Reads (takeIf k) [k] true fun _ ↦ True := by
  intro ts rest hts _
  obtain ⟨t, ts, rfl, hkind, hnil⟩ := List.map_eq_cons_iff.mp hts
  cases List.map_eq_nil_iff.mp hnil
  exact if_pos hkind

theorem takeIf_false (k : Kind) : Reads (takeIf k) [] false fun next ↦ next ≠ some k := by
  intro ts rest hts hrest
  cases List.map_eq_nil_iff.mp hts
  cases rest with
  | nil => rfl
  | cons t rest => exact if_neg fun hkind ↦ hrest (congrArg some hkind)

/-- To look at the next token takes nothing. -/
theorem peek {f : Option Kind → Reader β} (h : ∀ k, Q k → Reads (f (ks.head?.or k)) ks b (· = k)) :
    Reads (peek >>= f) ks b Q := by
  intro ts rest hts hrest
  have hpeek : Reader.peek (ts ++ rest) = (some (ks.head?.or (rest.head?.map (·.kind))), ts ++ rest) := by
    rw [← head?_append hts]
    rfl
  rw [bind_eq, hpeek]
  exact h _ hrest ts rest hts rfl

theorem cons {r : Reader α} {f : α → Reader β} {k : Kind} (hr : Reads r [k] a fun _ ↦ True)
    (hf : Reads (f a) ks b Q) : Reads (r >>= f) (k :: ks) b Q :=
  hr.bind hf fun _ _ ↦ trivial

theorem expect {f : Unit → Reader β} (k : Kind) (hf : Reads (f ()) ks b Q) :
    Reads (expect k >>= f) (k :: ks) b Q :=
  cons ((cons (takeIf_true k) (pure ()) : Reads (Reader.expect k) [k] () _)) hf

theorem map {r : Reader α} (h : Reads r ks a P) (g : α → β) : Reads (r >>= fun x ↦ Pure.pure (g x)) ks (g a) P := by
  rw [← List.append_nil ks]
  exact h.bind (pure (g a)) fun _ hk ↦ hk

/-- To go on without a token that is not there. -/
theorem skip {f : Bool → Reader β} {k : Kind} (hf : Reads (f false) ks b Q)
    (hnext : ∀ next, Q next → ks.head?.or next ≠ some k) : Reads (takeIf k >>= f) ks b Q :=
  (takeIf_false k).bind hf hnext

variable {item : Reader α} {f : α → List Kind} {sep : Kind}

theorem moreItems {as : List α} (hitem : ∀ a ∈ as, Reads item (f a) a P) (hsep : P (some sep)) {n : Nat}
    (hn : as.length ≤ n) :
    Reads (moreItems sep item n) (as.flatMap fun a ↦ sep :: f a) as fun k ↦ P k ∧ k ≠ some sep := by
  induction as generalizing n with
  | nil =>
    cases n with
    | zero => exact pure []
    | succ n => exact skip (pure []) fun _ hk ↦ hk.2
  | cons a as ih =>
    obtain ⟨n, rfl⟩ := Nat.exists_eq_succ_of_ne_zero (Nat.ne_of_gt (Nat.lt_of_lt_of_le (Nat.succ_pos _) hn))
    have hrest := ih (fun b hb ↦ hitem b (List.mem_cons_of_mem a hb)) (Nat.le_of_succ_le_succ hn)
    refine cons (takeIf_true sep) ((hitem a List.mem_cons_self).bind (hrest.map _) fun k hk ↦ ?_)
    cases as with
    | nil => exact hk.1
    | cons b as => exact hsep

theorem length_le_flatMap (sep : Kind) (f : α → List Kind) (as : List α) :
    as.length ≤ (as.flatMap fun a ↦ sep :: f a).length := by
  induction as with
  | nil => exact Nat.le_refl 0
  | cons a as ih =>
    rw [List.flatMap_cons, List.length_append, List.length_cons, List.length_cons]
    omega

theorem separated {a : α} {as : List α} (hitem : ∀ b ∈ a :: as, Reads item (f b) b P) (hsep : P (some sep)) :
    Reads (separated sep item) (f a ++ as.flatMap fun a ↦ sep :: f a) (a :: as) fun k ↦ P k ∧ k ≠ some sep := by
  have hmore : Reads (fun ts ↦ Reader.moreItems sep item ts.length ts) (as.flatMap fun a ↦ sep :: f a) as fun k ↦
      P k ∧ k ≠ some sep := by
    intro ts rest hts hrest
    have hlength : as.length ≤ (ts ++ rest).length := by
      have hcount := length_le_flatMap sep f as
      rw [← hts, List.length_map] at hcount
      rw [List.length_append]
      omega
    exact moreItems (fun b hb ↦ hitem b (List.mem_cons_of_mem a hb)) hsep hlength ts rest hts hrest
  refine (hitem a List.mem_cons_self).bind (hmore.map _) fun k hk ↦ ?_
  cases as with
  | nil => exact hk.1
  | cons b as => exact hsep

end Reads

end Reader

def UnaryOp.operator : UnaryOp → Operator
  | .and => .and
  | .or => .or
  | .xor => .xor

namespace Variable

def pieces (v : Variable) : List Piece := [.token (.punctuation v.kind.sigil), .token (.number v.number)]

def Numbered (v : Variable) : Prop := 0 < v.number ∧ v.number ≤ 65535

end Variable

namespace Expr

open Reader

mutual

def pieces : Expr → List Piece
  | .constant n _ => [.token (.punctuation '#'), .token (.number n.toNat)]
  | .var v | .array v => v.pieces
  | .element a subs => a.pieces ++ .gap ' ' :: .token (.word "SUB") :: piecesOfSubscripts subs
  | .unary op e =>
    .token (.punctuation '\'') :: .token (.operator op.operator) :: (e.pieces ++ [.token (.punctuation '\'')])
  | .mingle l r =>
    .token (.punctuation '\'') :: (l.pieces ++ .token (.operator .mingle) :: (r.pieces ++ [.token (.punctuation '\'')]))
  | .select l r =>
    .token (.punctuation '\'') :: (l.pieces ++ .token (.operator .select) :: (r.pieces ++ [.token (.punctuation '\'')]))

def piecesOfSubscripts : List Expr → List Piece
  | [] => []
  | e :: es => .gap ' ' :: (e.pieces ++ piecesOfSubscripts es)

end

theorem spell_variable (v : Variable) : spellAll v.pieces = v.write.toList := by
  simp [Variable.pieces, Variable.write, spellAll, Piece.spell]

mutual

theorem spell_pieces (e : Expr) : spellAll e.pieces = e.write.toList := by
  cases e with
  | constant n wide => simp [pieces, write, spellAll, Piece.spell]
  | var v => exact spell_variable v
  | array v => exact spell_variable v
  | element a subs =>
    simp only [pieces, write, spellAll_append, spellAll_cons, spell_variable, spell_subscripts subs,
      String.toList_append, List.append_assoc]
    rfl
  | unary op e =>
    simp only [pieces, write, spellAll_append, spellAll_cons, spell_pieces e, String.toList_append]
    cases op <;> rfl
  | mingle l r =>
    simp only [pieces, write, spellAll_append, spellAll_cons, spell_pieces l, spell_pieces r, String.toList_append]
    simp [Piece.spell, Operator.symbol, spellAll]
  | select l r =>
    simp only [pieces, write, spellAll_append, spellAll_cons, spell_pieces l, spell_pieces r, String.toList_append]
    simp [Piece.spell, Operator.symbol, spellAll]

theorem spell_subscripts (es : List Expr) : spellAll (piecesOfSubscripts es) = (writeSubscripts es).toList := by
  cases es with
  | nil => rfl
  | cons e es =>
    simp only [piecesOfSubscripts, writeSubscripts, spellAll_append, spellAll_cons, spell_pieces e, spell_subscripts es,
      String.toList_append]
    simp [Piece.spell]

end

def isElement : Expr → Bool
  | .element .. => true
  | _ => false

/-- The expressions that can be read back. Constants are short, variables have a number, subscripts are single, and no
element is the left operand of a binary operator, since it would take the rest for its subscript. -/
inductive Canonical : Expr → Prop
  | constant {n : Word} (le : n.toNat ≤ 65535) : Canonical (.constant n false)
  | var {v : Variable} (scalar : v.kind.isArray = false) (numbered : v.Numbered) : Canonical (.var v)
  | array {v : Variable} (array : v.kind.isArray = true) (numbered : v.Numbered) : Canonical (.array v)
  | element {a : Variable} {e : Expr} (array : a.kind.isArray = true) (numbered : a.Numbered)
      (subscript : Canonical e) : Canonical (.element a [e])
  | unary {op : UnaryOp} {e : Expr} (operand : Canonical e) : Canonical (.unary op e)
  | mingle {l r : Expr} (left : Canonical l) (right : Canonical r) (notElement : l.isElement = false) :
      Canonical (.mingle l r)
  | select {l r : Expr} (left : Canonical l) (right : Canonical r) (notElement : l.isElement = false) :
      Canonical (.select l r)

theorem sigil_mem_marks (k : Variable.Kind) : k.sigil ∈ marks := by cases k <;> decide

theorem le_maxWord {n : Nat} (h : n ≤ 65535) : n ≤ Text.maxWord := Nat.le_trans h (by decide)

section Legible

variable {xs : List Piece}

theorem legible_variable {v : Variable} (hv : v.Numbered) (hxs : Legible xs)
    (hapart : ∀ y ∈ xs.head?, y.isSolid = false) : Legible (v.pieces ++ xs) :=
  .mark (sigil_mem_marks _) (.number (le_maxWord hv.2) hapart hxs)

theorem head?_pieces (e : Expr) (xs : List Piece) : ∀ y ∈ (e.pieces ++ xs).head?, y.isSolid = false := by
  intro y hy
  cases e with
  | _ =>
    rw [pieces] at hy
    cases hy
    rfl

theorem apart_cons {p : Piece → Bool} {b : Bool} {x : Piece} (hx : p x = b) : ∀ y ∈ (x :: xs).head?, p y = b := by
  intro y hy
  cases hy
  exact hx

theorem Canonical.legible {e : Expr} (he : e.Canonical) (hxs : Legible xs)
    (hapart : ∀ y ∈ xs.head?, y.isSolid = false) : Legible (e.pieces ++ xs) := by
  have hquote {xs : List Piece} (hxs : Legible xs) : Legible (.token (.punctuation '\'') :: xs) := .mark (by decide) hxs
  induction he generalizing xs with
  | constant le =>
    rw [pieces]
    exact .mark (by decide) (.number (le_maxWord le) hapart hxs)
  | var _ numbered =>
    rw [pieces]
    exact legible_variable numbered hxs hapart
  | array _ numbered =>
    rw [pieces]
    exact legible_variable numbered hxs hapart
  | @element a e _ numbered _ ih =>
    have hsubscript : Legible (.gap ' ' :: (e.pieces ++ xs)) := .gap (by decide) (ih hxs hapart)
    have hword : Legible (.token (.word "SUB") :: .gap ' ' :: (e.pieces ++ xs)) :=
      .word (by decide) (apart_cons rfl) hsubscript
    simp only [pieces, piecesOfSubscripts, List.append_assoc, List.cons_append, List.append_nil]
    exact legible_variable numbered (.gap (by decide) hword) (apart_cons rfl)
  | @unary op e _ ih =>
    simp only [pieces, List.append_assoc, List.cons_append, List.nil_append]
    exact hquote (.operator (fun _ ↦ head?_pieces e _) (ih (hquote hxs) (apart_cons rfl)))
  | @mingle l r _ _ _ ihl ihr =>
    simp only [pieces, List.append_assoc, List.cons_append, List.nil_append]
    exact hquote (ihl (.operator nofun (ihr (hquote hxs) (apart_cons rfl))) (apart_cons rfl))
  | @select l r _ _ _ ihl ihr =>
    simp only [pieces, List.append_assoc, List.cons_append, List.nil_append]
    exact hquote (ihl (.operator nofun (ihr (hquote hxs) (apart_cons rfl))) (apart_cons rfl))

end Legible

def kinds (e : Expr) : List Kind := e.pieces.filterMap Piece.kind?

theorem head?_kinds (e : Expr) :
    ∃ c, e.kinds.head? = some (.punctuation c) ∧ startsOperand none (some (.punctuation c)) = true := by
  have hsigil (k : Variable.Kind) : startsOperand none (some (.punctuation k.sigil)) = true := by cases k <;> rfl
  cases e with
  | constant n wide =>
    rw [kinds, pieces]
    exact ⟨'#', rfl, rfl⟩
  | var v =>
    rw [kinds, pieces]
    exact ⟨v.kind.sigil, rfl, hsigil _⟩
  | array v =>
    rw [kinds, pieces]
    exact ⟨v.kind.sigil, rfl, hsigil _⟩
  | element a subs =>
    rw [kinds, pieces]
    exact ⟨a.kind.sigil, rfl, hsigil _⟩
  | _ =>
    rw [kinds, pieces]
    exact ⟨'\'', rfl, rfl⟩

theorem kinds_element (a : Variable) (e : Expr) :
    (Expr.element a [e]).kinds = .punctuation a.kind.sigil :: .number a.number :: .word "SUB" :: e.kinds := by
  simp [kinds, pieces, piecesOfSubscripts, Variable.pieces, Piece.kind?, List.filterMap_cons]

theorem kinds_unary (op : UnaryOp) (e : Expr) :
    (Expr.unary op e).kinds =
      .punctuation '\'' :: .operator op.operator :: (e.kinds ++ [.punctuation '\'']) := by
  simp [kinds, pieces, Piece.kind?]

theorem kinds_mingle (l r : Expr) :
    (Expr.mingle l r).kinds =
      .punctuation '\'' :: ((l.kinds ++ .operator .mingle :: r.kinds) ++ [.punctuation '\'']) := by
  simp [kinds, pieces, Piece.kind?]

theorem kinds_select (l r : Expr) :
    (Expr.select l r).kinds =
      .punctuation '\'' :: ((l.kinds ++ .operator .select :: r.kinds) ++ [.punctuation '\'']) := by
  simp [kinds, pieces, Piece.kind?]

theorem length_kinds_pos (e : Expr) : 0 < e.kinds.length := by
  obtain ⟨c, hc, -⟩ := head?_kinds e
  cases hkinds : e.kinds with
  | nil =>
    rw [hkinds] at hc
    cases hc
  | cons k ks => exact Nat.succ_pos _

theorem readNumber_reads {n : Nat} (h : n ≤ 65535) : Reads readNumber [.number n] n fun _ ↦ True := by
  refine .cons (.take _) ?_
  change Reads (if n ≤ 65535 then pure n else fail) [] n fun _ ↦ True
  rw [if_pos h]
  exact .pure n

theorem readIndex_reads {n : Nat} (hpos : 0 < n) (hle : n ≤ 65535) : Reads readIndex [.number n] n fun _ ↦ True := by
  refine .cons (readNumber_reads hle) ?_
  rw [if_neg (Nat.ne_of_gt hpos)]
  exact .pure n

theorem readUnary_none {k : Kind} (h : ∀ op : UnaryOp, some k ≠ some (.operator op.operator)) :
    Reads readUnary [] none (· = some k) := by
  have hnext (op : UnaryOp) : ∀ next, next = some k → next ≠ some (.operator op.operator) := by
    rintro _ rfl
    exact h op
  exact .skip (.skip (.skip (.pure _) (hnext .xor)) (hnext .or)) (hnext .and)

theorem readUnary_some (op : UnaryOp) : Reads readUnary [.operator op.operator] (some op) fun _ ↦ True := by
  cases op with
  | and => exact .cons (.takeIf_true _) (.pure _)
  | or => exact .skip (.cons (.takeIf_true _) (.pure _)) nofun
  | xor => exact .skip (.skip (.cons (.takeIf_true _) (.pure _)) nofun) nofun

theorem readVariable_reads {v : Variable} (hv : v.Numbered) :
    Reads readVariable [.punctuation v.kind.sigil, .number v.number] v fun _ ↦ True := by
  refine .cons (.take _) ?_
  simp only [Variable.Kind.ofSigil?_sigil]
  exact .pure_bind (.cons (readIndex_reads hv.1 hv.2) (.pure _))

/-- What may follow an expression: nothing that would be taken for a part of it. A number or a group is over by
itself. -/
def Closes (e : Expr) (closer : Option Char) (next : Option Kind) : Prop :=
  next ≠ some (.word "SUB") ∧
    (e.isElement → next ≠ some (.operator .mingle) ∧ next ≠ some (.operator .select) ∧
      startsOperand closer next = false)

structure Ends (closer : Option Char) (next : Option Kind) : Prop where
  sub : next ≠ some (.word "SUB")
  mingle : next ≠ some (.operator .mingle)
  select : next ≠ some (.operator .select)
  operand : startsOperand closer next = false

theorem Ends.closes {closer : Option Char} {next : Option Kind} (h : Ends closer next) (e : Expr) :
    e.Closes closer next :=
  ⟨h.sub, fun _ ↦ ⟨h.mingle, h.select, h.operand⟩⟩

theorem quote_ends : Ends (some '\'') (some (.punctuation '\'')) := ⟨nofun, nofun, nofun, by decide⟩

section Readers

variable {n : Nat} {closer : Option Char} {ks ks' : List Kind} {e l r : Expr} {P Q : Option Kind → Prop}

theorem readExpr_operand (h : Reads (readOperand n closer) ks e P) :
    Reads (readExpr (n + 1) closer) ks e fun k ↦
      P k ∧ k ≠ some (.operator .mingle) ∧ k ≠ some (.operator .select) := by
  rw [readExpr, ← List.append_nil ks]
  refine h.bind ?_ fun k hk ↦ hk.1
  exact .skip (.skip (.pure e) fun k hk ↦ hk.2.2) fun k hk ↦ hk.2.1

theorem readExpr_ends (h : Reads (readOperand n closer) ks e (e.Closes closer)) :
    Reads (readExpr (n + 1) closer) ks e (Ends closer) :=
  (readExpr_operand h).mono fun _ hk ↦ ⟨hk.closes e, hk.mingle, hk.select⟩

theorem readExpr_mingle (hl : Reads (readOperand n closer) ks l P) (hr : Reads (readExpr n closer) ks' r Q)
    (hnext : P (some (.operator .mingle))) :
    Reads (readExpr (n + 1) closer) (ks ++ .operator .mingle :: ks') (.mingle l r) Q := by
  rw [readExpr]
  refine hl.bind ?_ fun _ _ ↦ hnext
  exact .cons (.takeIf_true _) (hr.map _)

theorem readExpr_select (hl : Reads (readOperand n closer) ks l P) (hr : Reads (readExpr n closer) ks' r Q)
    (hnext : P (some (.operator .select))) :
    Reads (readExpr (n + 1) closer) (ks ++ .operator .select :: ks') (.select l r) Q := by
  rw [readExpr]
  refine hl.bind ?_ fun _ _ ↦ hnext
  exact .skip (.cons (.takeIf_true _) (hr.map _)) fun _ _ ↦ nofun

theorem take_closer (q : Char) (e : Expr) :
    Reads (do if (← take) = .punctuation q then pure e else fail) [.punctuation q] e fun _ ↦ True := by
  refine .cons (.take _) ?_
  rw [if_pos rfl]
  exact .pure e

theorem readGroup_some (op : UnaryOp) {q : Char} (he : Reads (readExpr n (some q)) ks e P)
    (hnext : P (some (.punctuation q))) :
    Reads (readGroup (n + 1) q) (.operator op.operator :: (ks ++ [.punctuation q])) (.unary op e) fun _ ↦ True := by
  rw [readGroup]
  exact .cons (readUnary_some op) (he.bind (take_closer q _) fun _ _ ↦ hnext)

theorem readGroup_none {q c : Char} (he : Reads (readExpr n (some q)) ks e P) (hhead : ks.head? = some (.punctuation c))
    (hnext : P (some (.punctuation q))) :
    Reads (readGroup (n + 1) q) (ks ++ [.punctuation q]) e fun _ ↦ True := by
  have hnone : Reads readUnary [] none (· = some (.punctuation c)) := readUnary_none nofun
  rw [readGroup]
  refine hnone.bind (he.bind (take_closer q e) fun _ _ ↦ hnext) fun k _ ↦ ?_
  change (ks ++ [Kind.punctuation q]).head?.or k = _
  rw [List.head?_append, hhead]
  rfl

theorem readOperand_group (closer : Option Char) {c : Char} (he : Reads (readExpr n (some '\'')) ks e P)
    (hhead : ks.head? = some (.punctuation c)) (hnext : P (some (.punctuation '\''))) :
    Reads (readOperand (n + 2) closer) (.punctuation '\'' :: (ks ++ [.punctuation '\''])) e fun _ ↦ True := by
  rw [readOperand]
  exact .cons (.take _) (readGroup_none he hhead hnext)

theorem readSubscripts_single (he : Reads (readExpr n closer) ks e (Ends closer)) :
    Reads (readSubscripts (n + 1) closer) ks [e] (Ends closer) := by
  rw [readSubscripts, ← List.append_nil ks]
  refine he.bind (.peek fun k hk ↦ ?_) fun k hk ↦ hk
  rw [List.head?_nil, Option.none_or, hk.operand, if_neg Bool.false_ne_true]
  exact .pure [e]

theorem readSubscripts_cons {es : List Expr} {k : Kind} (he : Reads (readExpr n closer) ks e P)
    (hes : Reads (readSubscripts n closer) ks' es Q) (hhead : ks'.head? = some k) (hnext : P (some k))
    (hstart : startsOperand closer (some k) = true) :
    Reads (readSubscripts (n + 1) closer) (ks ++ ks') (e :: es) Q := by
  rw [readSubscripts]
  refine he.bind (.peek fun next hk ↦ ?_) fun next _ ↦ by rw [hhead]; exact hnext
  rw [hhead, Option.some_or, hstart, if_pos rfl]
  refine (hes.mono ?_).map _
  rintro _ rfl
  exact hk

/-- An operand that begins with a variable goes on according to what kind that is. -/
theorem readOperand_variable {v : Variable} (hv : v.Numbered)
    (hrest : Reads (if !v.kind.isArray then pure (.var v)
      else do
        if ← takeIf (.word "SUB") then
          let subs ← readSubscripts n closer
          pure (.element v subs)
        else
          pure (.array v)) ks e P) :
    Reads (readOperand (n + 1) closer) (.punctuation v.kind.sigil :: .number v.number :: ks) e P := by
  obtain ⟨kind, number⟩ := v
  have hnone : Reads readUnary [] none (· = some (.number number)) := readUnary_none nofun
  rw [readOperand]
  refine .cons (.take _) ?_
  have hindex := readIndex_reads hv.1 hv.2
  cases kind <;> refine .pure_bind (hnone.bind (.cons hindex ?_) fun _ _ ↦ rfl)
  all_goals exact hrest

end Readers

theorem readOperand_constant {m : Word} (hm : m.toNat ≤ 65535) (n : Nat) (closer : Option Char) :
    Reads (readOperand (n + 1) closer) [.punctuation '#', .number m.toNat] (.constant m false) fun _ ↦ True := by
  have hnone : Reads readUnary [] none (· = some (.number m.toNat)) := readUnary_none nofun
  have hvalue : withUnary none (.constant (BitVec.ofNat 32 m.toNat) false) = .constant m false := by
    rw [BitVec.ofNat_toNat, BitVec.setWidth_eq]
    rfl
  rw [readOperand, ← hvalue]
  exact .cons (.take _) (hnone.bind ((readNumber_reads hm).map _) fun _ _ ↦ rfl)

/-- A binary operator in quotes, where its operands can be read with what is left of the fuel. -/
theorem readOperand_binary (closer : Option Char) {l r e : Expr} {op : Kind} {n : Nat}
    (hn : l.kinds.length + r.kinds.length + 3 ≤ n)
    (hinner : ∀ m, l.kinds.length ≤ m + 1 → r.kinds.length ≤ m →
      Reads (readExpr (m + 2) (some '\'')) (l.kinds ++ op :: r.kinds) e (Ends (some '\''))) :
    Reads (readOperand n closer) (.punctuation '\'' :: ((l.kinds ++ op :: r.kinds) ++ [.punctuation '\''])) e
      fun _ ↦ True := by
  have hl := length_kinds_pos l
  obtain ⟨c, hc, -⟩ := head?_kinds l
  obtain ⟨m, rfl⟩ : ∃ m, n = m + 4 := ⟨n - 4, by omega⟩
  exact readOperand_group closer (hinner m (by omega) (by omega)) (by rw [List.head?_append, hc]; rfl) quote_ends

theorem Canonical.reads {e : Expr} (he : e.Canonical) {n : Nat} (closer : Option Char) (hn : e.kinds.length ≤ n) :
    Reads (readOperand n closer) e.kinds e (e.Closes closer) := by
  -- a closer matters only to an element, whose subscript it may end; inside quotes it is the quote
  induction he generalizing n closer with
  | @constant m le =>
    rw [kinds, pieces] at hn ⊢
    obtain ⟨n, rfl⟩ : ∃ k, n = k + 1 := ⟨n - 1, by simp [Piece.kind?] at hn; omega⟩
    exact (readOperand_constant le n closer).mono fun _ _ ↦ trivial
  | @var v scalar numbered =>
    rw [kinds, pieces] at hn ⊢
    obtain ⟨n, rfl⟩ : ∃ k, n = k + 1 := ⟨n - 1, by simp [Piece.kind?, Variable.pieces] at hn; omega⟩
    refine readOperand_variable numbered ?_
    rw [scalar, Bool.not_false, if_pos rfl]
    exact .pure _
  | @array v array numbered =>
    rw [kinds, pieces] at hn ⊢
    obtain ⟨n, rfl⟩ : ∃ k, n = k + 1 := ⟨n - 1, by simp [Piece.kind?, Variable.pieces] at hn; omega⟩
    refine readOperand_variable numbered ?_
    rw [array, Bool.not_true, if_neg Bool.false_ne_true]
    exact .skip (.pure _) fun _ hk ↦ hk.1
  | @element a e array numbered subscript ih =>
    rw [kinds_element] at hn ⊢
    obtain ⟨n, rfl⟩ : ∃ k, n = k + 3 := ⟨n - 3, by simp at hn; omega⟩
    refine readOperand_variable numbered ?_
    rw [array, Bool.not_true, if_neg Bool.false_ne_true]
    have hsubscript := readSubscripts_single (readExpr_ends (ih closer (by simp at hn; omega)))
    refine .cons (.takeIf_true _) ((hsubscript.map _).mono fun k hk ↦ ?_)
    obtain ⟨hmingle, hselect, hoperand⟩ := hk.2 rfl
    exact ⟨hk.1, hmingle, hselect, hoperand⟩
  | @unary op e operand ih =>
    rw [kinds_unary] at hn ⊢
    simp only [List.length_cons, List.length_append, List.length_nil] at hn
    obtain ⟨n, rfl⟩ : ∃ k, n = k + 3 := ⟨n - 3, by omega⟩
    have hgroup := readGroup_some op (readExpr_ends (ih (some '\'') (by omega : _ ≤ n))) quote_ends
    rw [readOperand]
    exact .cons (.take _) (hgroup.mono fun _ _ ↦ trivial)
  | @mingle l r left right notElement ihl ihr =>
    rw [kinds_mingle] at hn ⊢
    simp only [List.length_cons, List.length_append, List.length_nil] at hn
    refine (readOperand_binary closer (by omega) fun m hl hr ↦ ?_).mono fun _ _ ↦ trivial
    exact readExpr_mingle (ihl _ hl) (readExpr_ends (ihr _ hr)) ⟨nofun, by rw [notElement]; exact nofun⟩
  | @select l r left right notElement ihl ihr =>
    rw [kinds_select] at hn ⊢
    simp only [List.length_cons, List.length_append, List.length_nil] at hn
    refine (readOperand_binary closer (by omega) fun m hl hr ↦ ?_).mono fun _ _ ↦ trivial
    exact readExpr_select (ihl _ hl) (readExpr_ends (ihr _ hr)) ⟨nofun, by rw [notElement]; exact nofun⟩

theorem Canonical.read {e : Expr} (he : e.Canonical) : Reads Expr.read e.kinds e (Ends none) := by
  intro ts rest hts hrest
  have hlength : e.kinds.length ≤ 3 * (ts ++ rest).length + 2 := by
    rw [← hts, List.length_map, List.length_append]
    omega
  exact readExpr_ends (he.reads none hlength) ts rest hts hrest

/-- Subscripts that can be read back one by one: an element among them would take those behind it. -/
inductive Subscripts : List Expr → Prop
  | last {e : Expr} (canonical : e.Canonical) : Subscripts [e]
  | cons {e : Expr} {es : List Expr} (canonical : e.Canonical) (notElement : e.isElement = false)
      (rest : Subscripts es) : Subscripts (e :: es)

theorem kinds_subscripts (es : List Expr) : (piecesOfSubscripts es).filterMap Piece.kind? = es.flatMap kinds := by
  induction es with
  | nil => rfl
  | cons e es ih =>
    rw [piecesOfSubscripts, List.filterMap_cons_none rfl, List.filterMap_append, ih]
    rfl

theorem Subscripts.head? {es : List Expr} (h : Subscripts es) :
    ∃ c, (es.flatMap kinds).head? = some (.punctuation c) ∧ startsOperand none (some (.punctuation c)) = true := by
  have hcons (e : Expr) (es : List Expr) :
      ∃ c, ((e :: es).flatMap kinds).head? = some (.punctuation c) ∧
        startsOperand none (some (.punctuation c)) = true := by
    obtain ⟨c, hc, hstarts⟩ := head?_kinds e
    refine ⟨c, ?_, hstarts⟩
    rw [List.flatMap_cons, List.head?_append, hc]
    rfl
  cases h with
  | last => exact hcons _ _
  | cons => exact hcons _ _

theorem Subscripts.reads {es : List Expr} (h : Subscripts es) {n : Nat} (hn : (es.flatMap kinds).length + 2 ≤ n) :
    Reads (readSubscripts n none) (es.flatMap kinds) es (Ends none) := by
  induction h generalizing n with
  | @last e canonical =>
    obtain ⟨n, rfl⟩ : ∃ k, n = k + 2 := ⟨n - 2, by omega⟩
    rw [List.flatMap_cons, List.flatMap_nil, List.append_nil] at hn ⊢
    exact readSubscripts_single (readExpr_ends (canonical.reads none (by omega : _ ≤ n)))
  | @cons e es canonical notElement rest ih =>
    rw [List.flatMap_cons] at hn ⊢
    rw [List.length_append] at hn
    have he := length_kinds_pos e
    obtain ⟨n, rfl⟩ : ∃ k, n = k + 2 := ⟨n - 2, by omega⟩
    obtain ⟨c, hc, hstarts⟩ := rest.head?
    have hread := readExpr_operand (canonical.reads none (by omega : _ ≤ n))
    refine readSubscripts_cons hread (ih (by omega)) hc ?_ hstarts
    exact ⟨⟨nofun, by rw [notElement]; exact nofun⟩, nofun, nofun⟩

theorem Subscripts.read {es : List Expr} (h : Subscripts es) : Reads readList (es.flatMap kinds) es (Ends none) := by
  intro ts rest hts hrest
  have hlength : (es.flatMap kinds).length + 2 ≤ 3 * (ts ++ rest).length + 3 := by
    rw [← hts, List.length_map, List.length_append]
    omega
  exact h.reads hlength ts rest hts hrest

end Expr

end Intercal
