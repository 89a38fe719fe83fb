/-!
# Finite maps on letters

A `LetterMap` holds its entries in increasing order of the letter, each letter once.  So two maps with the same
bindings are equal, and listing a map gives its letters in order.

* `get?_insert`: what an insertion does to look-ups.
* `ext_get?`: look-ups determine the map.
-/

namespace Deduction

/-- A finite map from letters, as a list of entries with increasing letters. -/
structure LetterMap (α : Type) where
  entries : List (Char × α)
  increasing : (entries.map Prod.fst).Pairwise (· < ·)
  deriving DecidableEq

namespace LetterMap

variable {α : Type}

/-- Binds `x` to `a` in an increasing list of entries, in place of what `x` was bound to. -/
def insertEntry (x : Char) (a : α) : List (Char × α) → List (Char × α)
  | [] => [(x, a)]
  | (y, b) :: rest =>
    if x < y then (x, a) :: (y, b) :: rest
    else if x = y then (x, a) :: rest
    else (y, b) :: insertEntry x a rest

theorem mem_keys_insertEntry {x z : Char} {a : α} {l : List (Char × α)} :
    z ∈ (insertEntry x a l).map Prod.fst ↔ z = x ∨ z ∈ l.map Prod.fst := by
  induction l with
  | nil => simp [insertEntry]
  | cons e rest ih =>
    obtain ⟨y, b⟩ := e
    simp only [insertEntry]
    split
    · simp
    · split
      · simp_all
      · simp only [List.map_cons, List.mem_cons, ih]
        grind

theorem increasing_insertEntry {x : Char} {a : α} {l : List (Char × α)}
    (h : (l.map Prod.fst).Pairwise (· < ·)) : ((insertEntry x a l).map Prod.fst).Pairwise (· < ·) := by
  induction l with
  | nil => simp [insertEntry]
  | cons e rest ih =>
    obtain ⟨y, b⟩ := e
    simp only [List.map_cons, List.pairwise_cons] at h
    simp only [insertEntry]
    split
    next hxy =>
      simp only [List.map_cons, List.pairwise_cons, List.mem_cons]
      refine ⟨?_, h⟩
      rintro z (rfl | hz)
      · exact hxy
      · exact Char.lt_trans hxy (h.1 z hz)
    next hxy =>
      split
      next heq => subst heq; simpa using h
      next hne =>
        simp only [List.map_cons, List.pairwise_cons]
        refine ⟨fun z hz => ?_, ih h.2⟩
        rcases mem_keys_insertEntry.mp hz with rfl | hz
        · exact Decidable.byContradiction fun h' =>
            hne (Char.le_antisymm (Char.not_lt.mp h') (Char.not_lt.mp hxy))
        · exact h.1 z hz

/-- What the first entry for `x` binds it to. -/
def lookupEntry (x : Char) : List (Char × α) → Option α
  | [] => none
  | (y, b) :: rest => if x = y then some b else lookupEntry x rest

/-- The map without entries. -/
def empty : LetterMap α := ⟨[], by simp⟩

instance : EmptyCollection (LetterMap α) := ⟨empty⟩

/-- Binds `x` to `a`, in place of what it was bound to. -/
def insert (m : LetterMap α) (x : Char) (a : α) : LetterMap α :=
  ⟨insertEntry x a m.entries, increasing_insertEntry m.increasing⟩

/-- The map with one entry. -/
def single (x : Char) (a : α) : LetterMap α := ⟨[(x, a)], by simp⟩

/-- What `x` is bound to. -/
def get? (m : LetterMap α) (x : Char) : Option α := lookupEntry x m.entries

/-- The letters that are bound, in increasing order. -/
def keys (m : LetterMap α) : List Char := m.entries.map Prod.fst

/-- The number of entries. -/
def size (m : LetterMap α) : Nat := m.entries.length

/-- The map with the given bindings, of which later ones win. -/
def ofList (pairs : List (Char × α)) : LetterMap α := pairs.foldl (fun m p => m.insert p.1 p.2) empty

/-- All bindings of both maps, those of `m` where both bind a letter. -/
def union (m n : LetterMap α) : LetterMap α := m.entries.foldl (fun acc p => acc.insert p.1 p.2) n

/-! ### Look-ups -/

theorem lookupEntry_insertEntry {x y : Char} {a : α} {l : List (Char × α)} :
    lookupEntry y (insertEntry x a l) = if y = x then some a else lookupEntry y l := by
  induction l with
  | nil => simp [insertEntry, lookupEntry]
  | cons e rest ih =>
    obtain ⟨z, b⟩ := e
    grind [insertEntry, lookupEntry]

@[simp] theorem get?_empty (x : Char) : (empty : LetterMap α).get? x = none := rfl

theorem get?_insert (m : LetterMap α) (x y : Char) (a : α) :
    (m.insert x a).get? y = if y = x then some a else m.get? y := lookupEntry_insertEntry

theorem lookupEntry_eq_none_of_lt {x : Char} {l : List (Char × α)} (h : ∀ y ∈ l.map Prod.fst, x < y) :
    lookupEntry x l = none := by
  induction l with
  | nil => rfl
  | cons e rest ih =>
    obtain ⟨y, b⟩ := e
    have hxy : x ≠ y := fun heq => Char.lt_irrefl x (heq ▸ h y (by simp))
    simp only [lookupEntry, hxy, if_false]
    exact ih fun z hz => h z (by simp_all)

/-- Increasing lists of entries with the same look-ups are equal. -/
theorem entries_eq_of_lookupEntry {l l' : List (Char × α)} (h : (l.map Prod.fst).Pairwise (· < ·))
    (h' : (l'.map Prod.fst).Pairwise (· < ·)) (hl : ∀ x, lookupEntry x l = lookupEntry x l') : l = l' := by
  induction l generalizing l' with
  | nil =>
    cases l' with
    | nil => rfl
    | cons e rest => simpa [lookupEntry] using hl e.1
  | cons e rest ih =>
    obtain ⟨x, a⟩ := e
    cases l' with
    | nil => simpa [lookupEntry] using hl x
    | cons e' rest' =>
      obtain ⟨y, b⟩ := e'
      simp only [List.map_cons, List.pairwise_cons] at h h'
      have not_lt {u v : Char} {c d : α} {k k' : List (Char × α)} (hk : ∀ z ∈ k'.map Prod.fst, v < z)
          (hu : lookupEntry u ((u, c) :: k) = lookupEntry u ((v, d) :: k')) : ¬ u < v := fun hlt => by
        have hne : u ≠ v := fun heq => Char.lt_irrefl u (heq ▸ hlt)
        simp [lookupEntry, hne, lookupEntry_eq_none_of_lt fun z hz => Char.lt_trans hlt (hk z hz)] at hu
      have hxy : x = y :=
        Char.le_antisymm (Char.not_lt.mp (not_lt h.1 (hl y).symm)) (Char.not_lt.mp (not_lt h'.1 (hl x)))
      subst hxy
      have hab : a = b := by simpa [lookupEntry] using hl x
      subst hab
      congr 1
      refine ih h.2 h'.2 fun z => ?_
      by_cases hz : z = x
      · subst hz
        rw [lookupEntry_eq_none_of_lt h.1, lookupEntry_eq_none_of_lt h'.1]
      · simpa [lookupEntry, hz] using hl z

/-- Maps with the same look-ups are equal. -/
theorem ext_get? {m n : LetterMap α} (h : ∀ x, m.get? x = n.get? x) : m = n := by
  obtain ⟨l, hl⟩ := m
  obtain ⟨l', hl'⟩ := n
  have := entries_eq_of_lookupEntry hl hl' h
  subst this
  rfl

end LetterMap

end Deduction
