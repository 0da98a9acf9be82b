import Intercal.Chunk
import Intercal.Proofs.Reading
import Intercal.Statement.Parser

namespace Intercal

open Token Reader

/-- A part of a line that has blanks only inside. -/
structure Phrase (xs : List Piece) : Prop where
  legible {zs : List Piece} : Legible zs → (∀ y ∈ zs.head?, y.isGap) → Legible (xs ++ zs)
  inline {c : Char} : .gap c ∈ xs → c = ' '
  last : ∃ k, xs.getLast? = some (.token k)

namespace Phrase

variable {xs ys : List Piece}

theorem gap (hxs : Phrase xs) (hys : Phrase ys) : Phrase (xs ++ .gap ' ' :: ys) where
  legible hzs hgap := by
    rw [List.append_assoc, List.cons_append]
    exact hxs.legible (.gap (by decide) (hys.legible hzs hgap)) (Expr.apart_cons rfl)
  inline hmem := by
    rcases List.mem_append.mp hmem with hmem | hmem
    · exact hxs.inline hmem
    · rcases List.mem_cons.mp hmem with heq | hmem
      · exact Piece.gap.inj heq
      · exact hys.inline hmem
  last := by
    obtain ⟨k, hk⟩ := hys.last
    exact ⟨k, by rw [List.getLast?_append, List.getLast?_cons, hk]; rfl⟩

theorem singleton {k : Kind}
    (h : ∀ {zs : List Piece}, Legible zs → (∀ y ∈ zs.head?, y.isGap) → Legible (.token k :: zs)) :
    Phrase [.token k] where
  legible := h
  inline hmem := by cases List.mem_singleton.mp hmem
  last := ⟨k, rfl⟩

theorem word {w : String} (hw : Plain w) : Phrase [.token (.word w)] :=
  singleton fun hzs hgap ↦ .word hw hgap hzs

theorem label {n : Nat} (hn : n ≤ Text.maxWord) : Phrase [.token (.label n)] :=
  singleton fun hzs _ ↦ .label hn hzs

theorem gets : Phrase [.token .gets] :=
  singleton fun hzs _ ↦ .gets hzs

theorem mark {c : Char} (hc : c ∈ marks) : Phrase [.token (.punctuation c)] :=
  singleton fun hzs _ ↦ .mark hc hzs

theorem not_solid {zs : List Piece} (h : ∀ y ∈ zs.head?, y.isGap) : ∀ y ∈ zs.head?, y.isSolid = false := by
  intro y hy
  have hgap := h y hy
  cases y with
  | gap c => rfl
  | token k => cases hgap

theorem marked {c : Char} (hc : c ∈ marks) {n : Nat} (hn : n ≤ Text.maxWord) :
    Phrase [.token (.punctuation c), .token (.number n)] where
  legible hzs hgap := .mark hc (.number hn (not_solid hgap) hzs)
  inline hmem := by simp at hmem
  last := ⟨_, rfl⟩

end Phrase

theorem Variable.Numbered.phrase {v : Variable} (hv : v.Numbered) : Phrase v.pieces :=
  .marked (Expr.sigil_mem_marks _) (Expr.le_maxWord hv.2)

namespace Expr

theorem Canonical.inline {e : Expr} (he : e.Canonical) {c : Char} (hc : .gap c ∈ e.pieces) : c = ' ' := by
  induction he with
  | constant le => simp [pieces] at hc
  | var scalar numbered => exact numbered.phrase.inline hc
  | array array numbered => exact numbered.phrase.inline hc
  | element array numbered subscript ih =>
    simp only [pieces, piecesOfSubscripts, List.mem_append, List.mem_cons, Piece.gap.injEq, reduceCtorEq, false_or,
      List.not_mem_nil, or_false] at hc
    rcases hc with hc | rfl | rfl | hc
    · exact numbered.phrase.inline hc
    · rfl
    · rfl
    · exact ih hc
  | unary operand ih =>
    simp only [pieces, List.mem_cons, List.mem_append, reduceCtorEq, false_or, List.not_mem_nil, or_false] at hc
    exact ih hc
  | mingle left right notElement ihl ihr =>
    simp only [pieces, List.mem_cons, List.mem_append, reduceCtorEq, false_or, List.not_mem_nil, or_false] at hc
    exact hc.elim ihl ihr
  | select left right notElement ihl ihr =>
    simp only [pieces, List.mem_cons, List.mem_append, reduceCtorEq, false_or, List.not_mem_nil, or_false] at hc
    exact hc.elim ihl ihr

theorem Canonical.last {e : Expr} (he : e.Canonical) : ∃ k, e.pieces.getLast? = some (.token k) := by
  induction he with
  | constant le => exact ⟨_, rfl⟩
  | var scalar numbered => exact numbered.phrase.last
  | array array numbered => exact numbered.phrase.last
  | element array numbered subscript ih =>
    obtain ⟨k, hk⟩ := ih
    refine ⟨k, ?_⟩
    simp [pieces, piecesOfSubscripts, List.getLast?_append, List.getLast?_cons, hk]
  | unary operand ih => exact ⟨.punctuation '\'', by simp [pieces, List.getLast?_cons]⟩
  | mingle left right notElement ihl ihr =>
    exact ⟨.punctuation '\'', by simp [pieces, List.getLast?_append, List.getLast?_cons]⟩
  | select left right notElement ihl ihr =>
    exact ⟨.punctuation '\'', by simp [pieces, List.getLast?_append, List.getLast?_cons]⟩

theorem Canonical.phrase {e : Expr} (he : e.Canonical) : Phrase e.pieces where
  legible hzs hgap := he.legible hzs (Phrase.not_solid hgap)
  inline := he.inline
  last := he.last

theorem Subscripts.canonical {es : List Expr} (h : Subscripts es) : ∀ e ∈ es, e.Canonical := by
  induction h with
  | last canonical =>
    intro e he
    cases List.mem_singleton.mp he
    exact canonical
  | cons canonical _ _ ih =>
    intro e he
    rcases List.mem_cons.mp he with rfl | he
    · exact canonical
    · exact ih e he

theorem phrase_subscripts {xs : List Piece} (hxs : Phrase xs) {es : List Expr} (hes : ∀ e ∈ es, e.Canonical) :
    Phrase (xs ++ piecesOfSubscripts es) := by
  induction es generalizing xs with
  | nil =>
    rw [piecesOfSubscripts, List.append_nil]
    exact hxs
  | cons e es ih =>
    have he := hxs.gap (hes e List.mem_cons_self).phrase
    have hrest := ih he fun e' he' ↦ hes e' (List.mem_cons_of_mem e he')
    rw [List.append_assoc, List.cons_append] at hrest
    exact hrest

end Expr

section Listed

variable {α : Type} {sep : Kind} {f : α → List Piece} {a : α} {as : List α}

def listed (sep : Kind) (f : α → List Piece) : List α → List Piece
  | [] => []
  | a :: as => f a ++ as.flatMap fun b ↦ .gap ' ' :: .token sep :: .gap ' ' :: f b

theorem listed_cons_cons (a b : α) (as : List α) :
    listed sep f (a :: b :: as) = f a ++ .gap ' ' :: ([.token sep] ++ .gap ' ' :: listed sep f (b :: as)) := rfl

theorem phrase_listed (hsep : Phrase [.token sep]) (h : ∀ b ∈ a :: as, Phrase (f b)) :
    Phrase (listed sep f (a :: as)) := by
  induction as generalizing a with
  | nil =>
    rw [listed, List.flatMap_nil, List.append_nil]
    exact h a List.mem_cons_self
  | cons b as ih =>
    rw [listed_cons_cons]
    exact (h a List.mem_cons_self).gap (hsep.gap (ih fun c hc ↦ h c (List.mem_cons_of_mem a hc)))

theorem spell_listed {g : α → String} (h : ∀ b, spellAll (f b) = (g b).toList) {between : String}
    (hbetween : between.toList = ' ' :: (Piece.token sep).spell ++ [' ']) (as : List α) :
    spellAll (listed sep f as) = (between.intercalate (as.map g)).toList := by
  rw [String.toList_intercalate]
  induction as with
  | nil => rfl
  | cons a as ih =>
    cases as with
    | nil =>
      rw [listed, List.flatMap_nil, List.append_nil, h]
      exact List.intercalate_singleton.symm
    | cons b as =>
      simp only [List.map_cons, List.intercalate_cons_cons] at ih ⊢
      simp only [listed_cons_cons, spellAll_append, spellAll_cons, ih, h, hbetween]
      simp [Piece.spell, spellAll]

theorem kinds_listed (a : α) (as : List α) :
    (listed sep f (a :: as)).filterMap Piece.kind? =
      (f a).filterMap Piece.kind? ++ as.flatMap fun b ↦ sep :: (f b).filterMap Piece.kind? := by
  rw [listed, List.filterMap_append, List.filterMap_flatMap]
  rfl

end Listed

def Gerund.write (g : Gerund) : String :=
  match g.second? with
  | some second => g.word ++ " " ++ second
  | none => g.word

def Abstention.write : Abstention → String
  | .label n => Label.writeRaw n
  | .gerunds gs => sum (gs.map Gerund.write)

def Body.write : Body → String
  | .effect (.assign (.scalar v) e) => v.write ++ " <- " ++ e.write
  | .effect (.assign (.element a subs) e) => a.write ++ " SUB" ++ Expr.writeSubscripts subs ++ " <- " ++ e.write
  | .effect (.redimension a dims) => a.write ++ " <- " ++ " BY ".intercalate (dims.map Expr.write)
  | .effect e => e.write
  | .next n => Label.writeRaw n ++ " NEXT"
  | .resume e => "RESUME " ++ e.write
  | .forget e => "FORGET " ++ e.write
  | .abstain t => "ABSTAIN FROM " ++ t.write
  | .reinstate t => "REINSTATE " ++ t.write
  | .giveUp => "GIVE UP"
  | .comeFrom n => "COME FROM " ++ Label.writeRaw n
  | .malformed => ""

def Gerund.pieces (g : Gerund) : List Piece :=
  match g.second? with
  | some second => [.token (.word g.word), .gap ' ', .token (.word second)]
  | none => [.token (.word g.word)]

def Abstention.pieces : Abstention → List Piece
  | .label n => [.token (.label n)]
  | .gerunds gs => listed (.punctuation '+') Gerund.pieces gs

def variablesAfter (xs : List Piece) (vs : List Variable) : List Piece :=
  xs ++ .gap ' ' :: listed (.punctuation '+') Variable.pieces vs

def twoWords (v w : String) : List Piece := [.token (.word v), .gap ' ', .token (.word w)]

def Effect.pieces : Effect → List Piece
  | .assign (.scalar v) e => v.pieces ++ .gap ' ' :: ([.token .gets] ++ .gap ' ' :: e.pieces)
  | .assign (.element a subs) e =>
    (a.pieces ++ .gap ' ' :: [.token (.word "SUB")]) ++ Expr.piecesOfSubscripts subs ++
      .gap ' ' :: ([.token .gets] ++ .gap ' ' :: e.pieces)
  | .redimension a dims => a.pieces ++ .gap ' ' :: ([.token .gets] ++ .gap ' ' :: listed (.word "BY") Expr.pieces dims)
  | .stash vs => variablesAfter [.token (.word "STASH")] vs
  | .retrieve vs => variablesAfter [.token (.word "RETRIEVE")] vs
  | .ignore vs => variablesAfter [.token (.word "IGNORE")] vs
  | .remember vs => variablesAfter [.token (.word "REMEMBER")] vs
  | .readOut items => twoWords "READ" "OUT" ++ .gap ' ' :: listed (.punctuation '+') Expr.pieces items
  | .writeIn vs => variablesAfter (twoWords "WRITE" "IN") vs

def Body.pieces : Body → List Piece
  | .effect e => e.pieces
  | .next n => [.token (.label n)] ++ .gap ' ' :: [.token (.word "NEXT")]
  | .resume e => [.token (.word "RESUME")] ++ .gap ' ' :: e.pieces
  | .forget e => [.token (.word "FORGET")] ++ .gap ' ' :: e.pieces
  | .abstain t => twoWords "ABSTAIN" "FROM" ++ .gap ' ' :: t.pieces
  | .reinstate t => [.token (.word "REINSTATE")] ++ .gap ' ' :: t.pieces
  | .giveUp => twoWords "GIVE" "UP"
  | .comeFrom n => twoWords "COME" "FROM" ++ .gap ' ' :: [.token (.label n)]
  | .malformed => []

theorem spell_gerund (g : Gerund) : spellAll g.pieces = g.write.toList := by
  cases g <;> rfl

theorem spell_sum {α : Type} {f : α → List Piece} {g : α → String} (h : ∀ b, spellAll (f b) = (g b).toList)
    (as : List α) : spellAll (listed (.punctuation '+') f as) = (sum (as.map g)).toList :=
  spell_listed h rfl as

theorem spell_abstention (t : Abstention) : spellAll t.pieces = t.write.toList := by
  cases t with
  | label n => simp [Abstention.pieces, Abstention.write, spellAll, Piece.spell]
  | gerunds gs => exact spell_sum spell_gerund gs

theorem spell_body (b : Body) : spellAll b.pieces = b.write.toList := by
  have hvariables := spell_sum Expr.spell_variable
  have hitems := spell_sum Expr.spell_pieces
  have hdimensions (dims : List Expr) :
      spellAll (listed (.word "BY") Expr.pieces dims) = (" BY ".intercalate (dims.map Expr.write)).toList :=
    spell_listed Expr.spell_pieces rfl dims
  have hnil : spellAll [] = [] := rfl
  cases b with
  | effect e =>
    cases e with
    | assign target e =>
      cases target <;>
        simp [Body.pieces, Effect.pieces, Body.write, spellAll_append, spellAll_cons, Piece.spell, Expr.spell_variable,
          Expr.spell_pieces, Expr.spell_subscripts]
    | redimension a dims =>
      simp [Body.pieces, Effect.pieces, Body.write, spellAll_append, spellAll_cons, Piece.spell, Expr.spell_variable,
        hdimensions]
    | _ =>
      simp [Body.pieces, Effect.pieces, Body.write, Effect.write, variablesAfter, twoWords, spellAll_cons, Piece.spell,
        hvariables, hitems]
  | _ =>
    simp [Body.pieces, Body.write, twoWords, spellAll_cons, Piece.spell, hnil, Expr.spell_pieces, spell_abstention]

/-- Targets and arrays are of the right kind, lists are not empty, and variables and expressions can be read back. -/
def Effect.Canonical : Effect → Prop
  | .assign (.scalar v) e => v.kind.isArray = false ∧ v.Numbered ∧ e.Canonical
  | .assign (.element a subs) e => a.kind.isArray = true ∧ a.Numbered ∧ Expr.Subscripts subs ∧ e.Canonical
  | .redimension a dims => a.kind.isArray = true ∧ a.Numbered ∧ dims ≠ [] ∧ ∀ e ∈ dims, e.Canonical
  | .stash vs | .retrieve vs | .ignore vs | .remember vs | .writeIn vs => vs ≠ [] ∧ ∀ v ∈ vs, v.Numbered
  | .readOut items => items ≠ [] ∧ ∀ e ∈ items, e.Canonical

def Abstention.Canonical : Abstention → Prop
  | .label n => n ≤ Text.maxWord
  | .gerunds gs => gs ≠ []

def Body.Canonical : Body → Prop
  | .effect e => e.Canonical
  | .next n | .comeFrom n => n ≤ Text.maxWord
  | .resume e | .forget e => e.Canonical
  | .abstain t | .reinstate t => t.Canonical
  | .giveUp => True
  | .malformed => False

theorem Phrase.twoWords {v w : String} (hv : Plain v) (hw : Plain w) : Phrase (twoWords v w) :=
  (word hv).gap (word hw)

theorem Phrase.listed {α : Type} {sep : Kind} {f : α → List Piece} {as : List α} (hsep : Phrase [.token sep])
    (hne : as ≠ []) (h : ∀ a ∈ as, Phrase (f a)) : Phrase (listed sep f as) := by
  cases as with
  | nil => exact absurd rfl hne
  | cons a as => exact phrase_listed hsep h

theorem Phrase.variablesAfter {xs : List Piece} (hxs : Phrase xs) {vs : List Variable} (hne : vs ≠ [])
    (hvs : ∀ v ∈ vs, v.Numbered) : Phrase (variablesAfter xs vs) :=
  hxs.gap (.listed (.mark (by decide)) hne fun v hv ↦ (hvs v hv).phrase)

theorem Gerund.phrase (g : Gerund) : Phrase g.pieces := by
  cases g with
  | readingOut | writingIn | comingFrom => exact .twoWords (by decide) (by decide)
  | _ => exact .word (by decide)

theorem Abstention.Canonical.phrase {t : Abstention} (ht : t.Canonical) : Phrase t.pieces := by
  cases t with
  | label n => exact .label ht
  | gerunds gs => exact .listed (.mark (by decide)) ht fun g _ ↦ g.phrase

theorem Effect.Canonical.phrase {e : Effect} (he : e.Canonical) : Phrase e.pieces := by
  cases e with
  | assign target e =>
    cases target with
    | scalar v =>
      obtain ⟨-, hv, he⟩ := he
      exact hv.phrase.gap (Phrase.gets.gap he.phrase)
    | element a subs =>
      obtain ⟨-, ha, hsubs, he⟩ := he
      exact (Expr.phrase_subscripts (ha.phrase.gap (.word (by decide))) hsubs.canonical).gap (Phrase.gets.gap he.phrase)
  | redimension a dims =>
    obtain ⟨-, ha, hne, hdims⟩ := he
    exact ha.phrase.gap (Phrase.gets.gap (.listed (.word (by decide)) hne fun e he ↦ (hdims e he).phrase))
  | readOut items =>
    exact (Phrase.twoWords (by decide) (by decide)).gap (.listed (.mark (by decide)) he.1 fun e h ↦ (he.2 e h).phrase)
  | writeIn vs => exact (Phrase.twoWords (by decide) (by decide)).variablesAfter he.1 he.2
  | _ => exact (Phrase.word (by decide)).variablesAfter he.1 he.2

theorem Body.Canonical.phrase {b : Body} (hb : b.Canonical) : Phrase b.pieces := by
  cases b with
  | effect e => exact Effect.Canonical.phrase hb
  | next n => exact (Phrase.label hb).gap (.word (by decide))
  | resume e => exact (Phrase.word (by decide)).gap (Expr.Canonical.phrase hb)
  | forget e => exact (Phrase.word (by decide)).gap (Expr.Canonical.phrase hb)
  | abstain t => exact (Phrase.twoWords (by decide) (by decide)).gap (Abstention.Canonical.phrase hb)
  | reinstate t => exact (Phrase.word (by decide)).gap (Abstention.Canonical.phrase hb)
  | giveUp => exact .twoWords (by decide) (by decide)
  | comeFrom n => exact (Phrase.twoWords (by decide) (by decide)).gap (.label hb)
  | malformed => exact hb.elim

namespace Statement

def Boundary (next : Option Kind) : Prop :=
  next = none ∨ next = some (.word "DO") ∨ next = some (.word "PLEASE") ∨ ∃ n, next = some (.label n)

namespace Boundary

variable {next : Option Kind}

theorem ends (h : Boundary next) : Expr.Ends none next := by
  rcases h with rfl | rfl | rfl | ⟨n, rfl⟩ <;> exact ⟨by simp, by simp, by simp, rfl⟩

theorem ne_plus (h : Boundary next) : next ≠ some (.punctuation '+') := by
  rcases h with rfl | rfl | rfl | ⟨n, rfl⟩ <;> simp

theorem ne_by (h : Boundary next) : next ≠ some (.word "BY") := by
  rcases h with rfl | rfl | rfl | ⟨n, rfl⟩ <;> simp

end Boundary

theorem readGerund_reads (g : Gerund) : Reads readGerund (g.pieces.filterMap Piece.kind?) g fun _ ↦ True := by
  have hfound (rest : Gerund → Reader Gerund) {ks : List Kind} {P : Option Kind → Prop} (h : Reads (rest g) ks g P) :
      Reads (ofOption (Gerund.ofWord? g.word) >>= rest) ks g P := by
    rw [Gerund.ofWord?_word]
    exact .pure_bind h
  refine .peek fun k _ ↦ ?_
  cases g with
  | readingOut | writingIn | comingFrom =>
    exact hfound _ (.cons (.take _) (.expect _ (.pure _)))
  | _ => exact hfound _ (.cons (.take _) (.pure_bind (.pure _)))

theorem separated_reads {α : Type} (sep : Kind) {item : Reader α} {f : α → List Piece} {as : List α}
    {P : Option Kind → Prop} (hne : as ≠ []) (hitem : ∀ a ∈ as, Reads item ((f a).filterMap Piece.kind?) a P)
    (hsep : P (some sep)) :
    Reads (separated sep item) ((listed sep f as).filterMap Piece.kind?) as fun k ↦ P k ∧ k ≠ some sep := by
  cases as with
  | nil => exact absurd rfl hne
  | cons a as =>
    rw [kinds_listed]
    exact .separated hitem hsep

theorem readVariables_reads {vs : List Variable} (hne : vs ≠ []) (hvs : ∀ v ∈ vs, v.Numbered) :
    Reads readVariables ((listed (.punctuation '+') Variable.pieces vs).filterMap Piece.kind?) vs Boundary :=
  (separated_reads _ hne (fun v hv ↦ Expr.readVariable_reads (hvs v hv)) trivial).mono fun _ hk ↦ ⟨trivial, hk.ne_plus⟩

theorem plus_ends : Expr.Ends none (some (.punctuation '+')) := ⟨nofun, nofun, nofun, rfl⟩

theorem by_ends : Expr.Ends none (some (.word "BY")) := ⟨by simp, nofun, nofun, rfl⟩

theorem gets_ends : Expr.Ends none (some .gets) := ⟨nofun, nofun, nofun, rfl⟩

theorem readAbstention_reads {t : Abstention} (ht : t.Canonical) :
    Reads readAbstention (t.pieces.filterMap Piece.kind?) t Boundary := by
  refine .peek fun k hk ↦ ?_
  cases t with
  | label n => exact .cons (.take _) (.pure _)
  | gerunds gs =>
    have hhead : ∃ w, ((listed (.punctuation '+') Gerund.pieces gs).filterMap Piece.kind?).head? = some (.word w) := by
      cases gs with
      | nil => exact absurd rfl ht
      | cons g gs => cases g <;> exact ⟨_, rfl⟩
    obtain ⟨w, hw⟩ := hhead
    have hgerunds := separated_reads (.punctuation '+') ht (fun g _ ↦ readGerund_reads g) trivial
    rw [Abstention.pieces, hw, Option.some_or]
    refine (hgerunds.map Abstention.gerunds).mono ?_
    rintro _ rfl
    exact ⟨trivial, hk.ne_plus⟩

theorem readCalculation_assign {v : Variable} {e : Expr} (hscalar : v.kind.isArray = false) (hv : v.Numbered)
    (he : e.Canonical) :
    Reads readCalculation ([.punctuation v.kind.sigil, .number v.number] ++ .gets :: e.kinds) (.assign (.scalar v) e)
      Boundary := by
  refine (Expr.readVariable_reads hv).bind (.skip (.cons (.take _) ?_) fun _ _ ↦ nofun) fun _ _ ↦ trivial
  rw [if_pos rfl, hscalar, if_neg Bool.false_ne_true]
  exact (he.read.map _).mono fun _ hk ↦ hk.ends

theorem readCalculation_element {a : Variable} {subs : List Expr} {e : Expr} (harray : a.kind.isArray = true)
    (ha : a.Numbered) (hsubs : Expr.Subscripts subs) (he : e.Canonical) :
    Reads readCalculation ([.punctuation a.kind.sigil, .number a.number] ++
        .word "SUB" :: (subs.flatMap Expr.kinds ++ .gets :: e.kinds))
      (.assign (.element a subs) e) Boundary := by
  refine (Expr.readVariable_reads ha).bind (.cons (.takeIf_true _) ?_) fun _ _ ↦ trivial
  refine hsubs.read.bind (.cons (.take _) ?_) fun _ _ ↦ gets_ends
  rw [if_pos rfl]
  rw [← List.append_nil e.kinds]
  refine (he.read.bind ?_ fun _ hk ↦ hk.ends)
  rw [harray, if_pos rfl]
  exact .pure _

theorem readCalculation_redimension {a : Variable} {dims : List Expr} (harray : a.kind.isArray = true) (ha : a.Numbered)
    (hne : dims ≠ []) (hdims : ∀ e ∈ dims, e.Canonical) :
    Reads readCalculation ([.punctuation a.kind.sigil, .number a.number] ++
        .gets :: (listed (.word "BY") Expr.pieces dims).filterMap Piece.kind?)
      (.redimension a dims) Boundary := by
  refine (Expr.readVariable_reads ha).bind (.skip (.cons (.take _) ?_) fun _ _ ↦ nofun) fun _ _ ↦ trivial
  rw [if_pos rfl, harray, if_pos rfl]
  have hread := separated_reads (.word "BY") hne (fun e he ↦ (hdims e he).read) by_ends
  exact (hread.map _).mono fun _ hk ↦ ⟨hk.ends, hk.ne_by⟩

theorem readBody_calculation {k : Variable.Kind} {ks : List Kind} {e : Effect} (h : Reads readCalculation ks e Boundary)
    (hhead : ks.head? = some (.punctuation k.sigil)) : Reads readBody ks (.effect e) Boundary := by
  refine .peek fun next hnext ↦ ?_
  rw [hhead, Option.some_or]
  dsimp only
  rw [Variable.Kind.ofSigil?_sigil, Option.isSome_some, if_pos rfl]
  refine (h.map _).mono ?_
  rintro _ rfl
  exact hnext

theorem readBody_verb {w : String} {ks : List Kind} {b : Body} (h : Reads (readVerb w) ks b Boundary) :
    Reads readBody (.word w :: ks) b Boundary := by
  refine .peek fun next hnext ↦ .cons (.take _) (h.mono ?_)
  rintro _ rfl
  exact hnext

theorem readBody_effect {e : Effect} (he : e.Canonical) :
    Reads readBody (e.pieces.filterMap Piece.kind?) (.effect e) Boundary := by
  have hverb {w : String} {vs : List Variable} {f : List Variable → Effect} (hvs : vs ≠ [] ∧ ∀ v ∈ vs, v.Numbered)
      (h : readVerb w = do return .effect (f (← readVariables))) :
      Reads readBody ((variablesAfter [.token (.word w)] vs).filterMap Piece.kind?) (.effect (f vs)) Boundary := by
    refine readBody_verb ?_
    rw [h]
    exact (readVariables_reads hvs.1 hvs.2).map _
  cases e with
  | assign target e =>
    cases target with
    | scalar v =>
      obtain ⟨hscalar, hv, he⟩ := he
      exact readBody_calculation (readCalculation_assign hscalar hv he) rfl
    | element a subs =>
      obtain ⟨harray, ha, hsubs, he⟩ := he
      have hkinds : (Effect.assign (.element a subs) e).pieces.filterMap Piece.kind? =
          [.punctuation a.kind.sigil, .number a.number] ++
            .word "SUB" :: (subs.flatMap Expr.kinds ++ .gets :: e.kinds) := by
        rw [Effect.pieces, List.filterMap_append, List.filterMap_append, List.filterMap_append, Expr.kinds_subscripts,
          List.append_assoc, List.append_assoc]
        rfl
      rw [hkinds]
      exact readBody_calculation (readCalculation_element harray ha hsubs he) rfl
  | redimension a dims =>
    obtain ⟨harray, ha, hne, hdims⟩ := he
    exact readBody_calculation (readCalculation_redimension harray ha hne hdims) rfl
  | stash vs => exact hverb he rfl
  | retrieve vs => exact hverb he rfl
  | ignore vs => exact hverb he rfl
  | remember vs => exact hverb he rfl
  | readOut items =>
    have hitems := separated_reads (.punctuation '+') he.1 (fun e h ↦ (he.2 e h).read) plus_ends
    refine readBody_verb (.expect _ ((hitems.map _).mono fun _ hk ↦ ⟨hk.ends, hk.ne_plus⟩))
  | writeIn vs => exact readBody_verb (.expect _ ((readVariables_reads he.1 he.2).map _))

theorem readBody_reads {b : Body} (hb : b.Canonical) : Reads readBody (b.pieces.filterMap Piece.kind?) b Boundary := by
  cases b with
  | effect e => exact readBody_effect hb
  | next n => exact .peek fun _ _ ↦ .cons (.take _) (.expect _ (.pure _))
  | resume e => exact readBody_verb ((hb.read.map _).mono fun _ hk ↦ hk.ends)
  | forget e => exact readBody_verb ((hb.read.map _).mono fun _ hk ↦ hk.ends)
  | abstain t => exact readBody_verb (.expect _ ((readAbstention_reads hb).map _))
  | reinstate t => exact readBody_verb ((readAbstention_reads hb).map _)
  | giveUp => exact readBody_verb (.expect _ (.pure _))
  | comeFrom n => exact readBody_verb (.expect _ (.cons (.take _) (.pure _)))
  | malformed => exact hb.elim

end Statement

end Intercal
