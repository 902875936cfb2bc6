/-
  Handout.Table — key-sorted tables: association lists whose keys increase strictly in
  code point order. Dictionaries of literals, objects of notebooks and the test files
  of a store are all tables.

  `insert` replaces the entry of an equal key, `find?` reads one and `erase` drops
  one; `ofEntries` builds a table from entries in any order, the last of equal keys
  winning.
-/

namespace Handout.Table

variable {α : Type}

/-- Puts an entry at its place, replacing the one with the same key. -/
def insert (k : String) (v : α) : List (String × α) → List (String × α)
  | [] => [(k, v)]
  | (k', v') :: rest =>
    if k < k' then (k, v) :: (k', v') :: rest
    else if k = k' then (k, v) :: rest
    else (k', v') :: insert k v rest

def find? (k : String) : List (String × α) → Option α
  | [] => none
  | (k', v) :: rest => if k = k' then some v else find? k rest

def erase (k : String) (t : List (String × α)) : List (String × α) :=
  t.filter fun e => e.1 ≠ k

/-- The table of the entries, read from the left. -/
def ofEntries (es : List (String × α)) : List (String × α) :=
  es.foldl (fun t e => insert e.1 e.2 t) []

def keys (t : List (String × α)) : List String := t.map Prod.fst

/-- Keys increase strictly. -/
def Sorted (t : List (String × α)) : Prop := t.Pairwise fun a b => a.1 < b.1

/-! ## What the operations do to look-up -/

theorem find?_insert_self (k : String) (v : α) (t : List (String × α)) :
    find? k (insert k v t) = some v := by
  induction t with
  | nil => simp [insert, find?]
  | cons e rest ih =>
    obtain ⟨k', v'⟩ := e
    unfold insert
    split
    · simp [find?]
    · split
      · simp [find?]
      · rename_i hne
        simp [find?, hne, ih]

theorem find?_insert_ne {k k' : String} (h : k' ≠ k) (v : α) (t : List (String × α)) :
    find? k' (insert k v t) = find? k' t := by
  induction t with
  | nil => simp [insert, find?, h]
  | cons e rest ih =>
    obtain ⟨k₀, v₀⟩ := e
    unfold insert
    split
    · simp [find?, h]
    · split
      · rename_i he
        subst he
        simp [find?, h]
      · simp only [find?, ih]

end Handout.Table
