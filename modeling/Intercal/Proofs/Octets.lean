import Intercal.Text
import Mathlib.Data.List.TakeWhile

namespace Intercal.Text.Utf8

structure Shows (c : Char) (b : UInt8) (bs : List UInt8) : Prop where
  lead : ∃ l, lead? b = some l ∧ l.follow = bs.length ∧ ∀ d ∈ bs.head?, l.low ≤ d ∧ d ≤ l.high
  tail : ∀ d ∈ bs, 0x80 ≤ d ∧ d ≤ 0xBF
  value : codePoint b bs = c.toNat

theorem toNat_ofNat {n : Nat} (h : n < 256) : (UInt8.ofNat n).toNat = n := by
  rw [UInt8.toNat_ofNat', Nat.mod_eq_of_lt h]

theorem lead?_eq (b : UInt8) : lead? b =
    if b.toNat < 0x80 then some ⟨0, 0x80, 0xBF⟩
    else if b.toNat < 0xC2 then none
    else if b.toNat < 0xE0 then some ⟨1, 0x80, 0xBF⟩
    else if b.toNat = 0xE0 then some ⟨2, 0xA0, 0xBF⟩
    else if b.toNat = 0xED then some ⟨2, 0x80, 0x9F⟩
    else if b.toNat < 0xF0 then some ⟨2, 0x80, 0xBF⟩
    else if b.toNat = 0xF0 then some ⟨3, 0x90, 0xBF⟩
    else if b.toNat < 0xF4 then some ⟨3, 0x80, 0xBF⟩
    else if b.toNat = 0xF4 then some ⟨3, 0x80, 0x8F⟩
    else none := by
  simp only [lead?, UInt8.lt_iff_toNat_lt, beq_iff_eq, ← UInt8.toNat_inj]
  rfl

theorem lead?_three {n : Nat} (hlow : 0xE0 ≤ n) (hhigh : n < 0xF0) : lead? (.ofNat n) =
    some ⟨2, if n = 0xE0 then 0xA0 else 0x80, if n = 0xED then 0x9F else 0xBF⟩ := by
  rw [lead?_eq, toNat_ofNat (by omega), if_neg (by omega), if_neg (by omega), if_neg (by omega)]
  by_cases hfirst : n = 0xE0
  · rw [if_pos hfirst, if_pos hfirst, if_neg (by omega)]
  · rw [if_neg hfirst, if_neg hfirst]
    by_cases hsurrogate : n = 0xED
    · rw [if_pos hsurrogate, if_pos hsurrogate]
    · rw [if_neg hsurrogate, if_neg hsurrogate, if_pos hhigh]

theorem lead?_four {n : Nat} (hlow : 0xF0 ≤ n) (hhigh : n ≤ 0xF4) : lead? (.ofNat n) =
    some ⟨3, if n = 0xF0 then 0x90 else 0x80, if n = 0xF4 then 0x8F else 0xBF⟩ := by
  rw [lead?_eq, toNat_ofNat (by omega), if_neg (by omega), if_neg (by omega), if_neg (by omega), if_neg (by omega),
    if_neg (by omega), if_neg (by omega)]
  by_cases hfirst : n = 0xF0
  · rw [if_pos hfirst, if_pos hfirst, if_neg (by omega)]
  · rw [if_neg hfirst, if_neg hfirst]
    by_cases hlast : n = 0xF4
    · rw [if_neg (by omega), if_pos hlast, if_pos hlast]
    · rw [if_pos (by omega), if_neg hlast]

def follower (n : Nat) : UInt8 := .ofNat (n % 64 + 128)

theorem toNat_follower (n : Nat) : (follower n).toNat = n % 64 + 128 := toNat_ofNat (by omega)

theorem within_follower {low high : UInt8} {n : Nat} (hlow : low.toNat ≤ n % 64 + 128)
    (hhigh : n % 64 + 128 ≤ high.toNat) : low ≤ follower n ∧ follower n ≤ high := by
  rw [UInt8.le_iff_toNat_le, UInt8.le_iff_toNat_le, toNat_follower]
  exact ⟨hlow, hhigh⟩

theorem follower_continues (n : Nat) : (0x80 : UInt8) ≤ follower n ∧ follower n ≤ 0xBF := by
  apply within_follower
  · exact Nat.le_add_left 128 (n % 64)
  · change n % 64 + 128 ≤ 191
    omega

variable {c : Char}

theorem shows_one (h : c.toNat ≤ 0x7F) : Shows c (.ofNat c.toNat) [] := by
  have hlead := toNat_ofNat (show c.toNat < 256 by omega)
  refine ⟨⟨⟨0, 0x80, 0xBF⟩, ?_, rfl, nofun⟩, nofun, hlead⟩
  rw [lead?_eq, hlead, if_pos (by omega)]

theorem shows_two (hlow : 0x7F < c.toNat) (hhigh : c.toNat ≤ 0x7FF) :
    Shows c (.ofNat (c.toNat / 64 % 32 + 192)) [follower c.toNat] := by
  have hlead := toNat_ofNat (show c.toNat / 64 % 32 + 192 < 256 by omega)
  refine ⟨⟨⟨1, 0x80, 0xBF⟩, ?_, rfl, ?_⟩, ?_, ?_⟩
  · rw [lead?_eq, hlead, if_neg (by omega), if_neg (by omega), if_pos (by omega)]
  · intro d hd
    cases hd
    exact follower_continues c.toNat
  · rw [List.forall_mem_singleton]
    exact follower_continues c.toNat
  · simp only [codePoint, List.length_singleton, List.foldl_cons, List.foldl_nil, hlead, toNat_follower]
    omega

theorem not_surrogate (c : Char) : c.toNat < 0xD800 ∨ 0xDFFF < c.toNat ∧ c.toNat < 0x110000 := c.valid

theorem shows_three (hlow : 0x7FF < c.toNat) (hhigh : c.toNat ≤ 0xFFFF) :
    Shows c (.ofNat (c.toNat / 4096 % 16 + 224)) [follower (c.toNat / 64), follower c.toNat] := by
  have hlead := toNat_ofNat (show c.toNat / 4096 % 16 + 224 < 256 by omega)
  have hvalid := not_surrogate c
  refine ⟨⟨_, lead?_three (by omega) (by omega), rfl, ?_⟩, ?_, ?_⟩
  · intro d hd
    cases hd
    apply within_follower <;> dsimp only
    · split
      · change 160 ≤ _
        omega
      · change 128 ≤ _
        omega
    · split
      · change _ ≤ 159
        omega
      · change _ ≤ 191
        omega
  · rw [List.forall_mem_cons, List.forall_mem_singleton]
    exact ⟨follower_continues _, follower_continues _⟩
  · simp only [codePoint, List.length_cons, List.length_nil, List.foldl_cons, List.foldl_nil, hlead, toNat_follower]
    omega

theorem shows_four (hlow : 0xFFFF < c.toNat) :
    Shows c (.ofNat (c.toNat / 262144 % 8 + 240))
      [follower (c.toNat / 4096), follower (c.toNat / 64), follower c.toNat] := by
  have hvalid := not_surrogate c
  have hlead := toNat_ofNat (show c.toNat / 262144 % 8 + 240 < 256 by omega)
  refine ⟨⟨_, lead?_four (by omega) (by omega), rfl, ?_⟩, ?_, ?_⟩
  · intro d hd
    cases hd
    apply within_follower <;> dsimp only
    · split
      · change 144 ≤ _
        omega
      · change 128 ≤ _
        omega
    · split
      · change _ ≤ 143
        omega
      · change _ ≤ 191
        omega
  · rw [List.forall_mem_cons, List.forall_mem_cons, List.forall_mem_singleton]
    exact ⟨follower_continues _, follower_continues _, follower_continues _⟩
  · simp only [codePoint, List.length_cons, List.length_nil, List.foldl_cons, List.foldl_nil, hlead, toNat_follower]
    omega

theorem exists_shows (c : Char) : ∃ b bs, encodeChar c = b :: bs ∧ Shows c b bs := by
  rw [encodeChar, String.utf8EncodeChar]
  split
  · next hone => exact ⟨_, _, rfl, shows_one hone⟩
  · next hone =>
    split
    · next htwo => exact ⟨_, _, rfl, shows_two (Nat.not_le.mp hone) htwo⟩
    · next htwo =>
      split
      · next hthree => exact ⟨_, _, rfl, shows_three (Nat.not_le.mp htwo) hthree⟩
      · next hthree => exact ⟨_, _, rfl, shows_four (Nat.not_le.mp hthree)⟩

theorem tail_append {l : Lead} {bs : List UInt8} (hlength : l.follow = bs.length)
    (hfirst : ∀ d ∈ bs.head?, l.low ≤ d ∧ d ≤ l.high) (hbs : ∀ d ∈ bs, 0x80 ≤ d ∧ d ≤ 0xBF) (rest : List UInt8) :
    tail l (bs ++ rest) = bs := by
  obtain ⟨follow, low, high⟩ := l
  obtain rfl : follow = bs.length := hlength
  cases bs with
  | nil => rfl
  | cons b bs =>
    have hb : (decide (low ≤ b) && decide (b ≤ high)) = true := by
      rw [Bool.and_eq_true, decide_eq_true_eq, decide_eq_true_eq]
      exact hfirst b rfl
    have hwhile : ∀ d ∈ bs, (decide (0x80 ≤ d) && decide (d ≤ 0xBF)) = true := by
      intro d hd
      rw [Bool.and_eq_true, decide_eq_true_eq, decide_eq_true_eq]
      exact hbs d (List.mem_cons_of_mem b hd)
    simp only [tail, List.length_cons, List.cons_append, hb, if_true, List.take_left,
      List.takeWhile_eq_self_iff.mpr hwhile]

theorem Shows.head {b : UInt8} {bs : List UInt8} (h : Shows c b bs) (rest : List UInt8) :
    head b (bs ++ rest) = (some c, bs.length + 1) := by
  obtain ⟨⟨l, hlead, hlength, hfirst⟩, htail, hvalue⟩ := h
  rw [Utf8.head, hlead]
  dsimp only
  rw [tail_append hlength hfirst htail, if_pos hlength.symm, hvalue, Char.ofNat_toNat]

theorem readFrom_append (bs rest : List UInt8) : readFrom bs.length (bs ++ rest) = readFrom 0 rest := by
  induction bs with
  | nil => rfl
  | cons b bs ih => exact ih

theorem read_encode_append (cs : List Char) (rest : List UInt8) :
    read (encode cs ++ rest) = cs.map some ++ read rest := by
  induction cs with
  | nil => rfl
  | cons c cs ih =>
    obtain ⟨b, bs, hencode, hshows⟩ := exists_shows c
    rw [encode, List.flatMap_cons, hencode, List.append_assoc, List.cons_append, read, readFrom, hshows.head,
      Nat.add_sub_cancel, readFrom_append]
    exact congrArg (some c :: ·) ih

/-- Octets are read as the text that they were written from. -/
theorem decode?_encode (cs : List Char) : decode? (encode cs) = some cs := by
  have hread : read (encode cs) = cs.map some := by
    have happend := read_encode_append cs []
    rw [List.append_nil] at happend
    exact happend.trans (List.append_nil _)
  have hall : cs.mapM some = some (cs.map id) := List.mapM_pure
  rw [List.map_id] at hall
  rw [decode?, hread, List.mapM_map]
  exact hall

/-- An octet below 128 is part of no character but the one with its number. -/
theorem Shows.eq_of_mem {b d : UInt8} {bs : List UInt8} (h : Shows c b bs) (hd : d.toNat < 0x80) (hmem : d ∈ b :: bs) :
    c.toNat = d.toNat := by
  obtain ⟨⟨l, hlead, hlength, -⟩, htail, hvalue⟩ := h
  rcases List.mem_cons.mp hmem with rfl | hmem
  · rw [lead?_eq, if_pos hd, Option.some.injEq] at hlead
    subst hlead
    obtain rfl : bs = [] := List.length_eq_zero_iff.mp hlength.symm
    exact hvalue.symm
  · have hle := UInt8.le_iff_toNat_le.mp (htail d hmem).1
    exact absurd hd (Nat.not_lt.mpr hle)

theorem newline_mem_encode {cs : List Char} : 10 ∈ encode cs ↔ '\n' ∈ cs := by
  rw [encode, List.mem_flatMap]
  constructor
  · rintro ⟨c, hc, hmem⟩
    obtain ⟨b, bs, hencode, hshows⟩ := exists_shows c
    rw [hencode] at hmem
    have hnewline : c = '\n' := Char.toNat_inj.mp (hshows.eq_of_mem (by decide) hmem)
    exact hnewline ▸ hc
  · intro hmem
    exact ⟨'\n', hmem, List.mem_singleton_self 10⟩

end Intercal.Text.Utf8
