namespace Intercal

structure Table (κ α : Type) where
  entries : List (κ × α)

namespace Table

variable {κ α : Type} [DecidableEq κ]

def empty : Table κ α := ⟨[]⟩

def find (k : κ) : List (κ × α) → Option α
  | [] => none
  | (k', a) :: es => if k' = k then some a else find k es

def put (k : κ) (a : α) : List (κ × α) → List (κ × α)
  | [] => [(k, a)]
  | (k', a') :: es => if k' = k then (k, a) :: es else (k', a') :: put k a es

def get? (t : Table κ α) (k : κ) : Option α := find k t.entries

/-- Puts an entry in the place of the one with the same key, or else at the end. -/
def insert (t : Table κ α) (k : κ) (a : α) : Table κ α := ⟨put k a t.entries⟩

theorem find_put_self (k : κ) (a : α) (es : List (κ × α)) : find k (put k a es) = some a := by
  induction es with
  | nil => simp [put, find]
  | cons e es ih =>
    obtain ⟨k', a'⟩ := e
    by_cases h : k' = k <;> simp [put, find, h, ih]

theorem find_put_of_ne {k l : κ} (h : k ≠ l) (a : α) (es : List (κ × α)) :
    find l (put k a es) = find l es := by
  induction es with
  | nil => simp [put, find, h]
  | cons e es ih =>
    obtain ⟨k', a'⟩ := e
    by_cases hk : k' = k
    · subst hk
      simp [put, find, h]
    · simp [put, find, hk, ih]

@[simp] theorem get?_empty (k : κ) : (empty : Table κ α).get? k = none := rfl

@[simp] theorem get?_insert_self (t : Table κ α) (k : κ) (a : α) : (t.insert k a).get? k = some a :=
  find_put_self k a t.entries

theorem get?_insert_of_ne (t : Table κ α) {k l : κ} (h : k ≠ l) (a : α) :
    (t.insert k a).get? l = t.get? l :=
  find_put_of_ne h a t.entries

end Table

end Intercal
