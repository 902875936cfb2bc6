/-
  Handout.Text.Lines — text as lines. A text has one line more than it has line ends, and
  `join` puts back what `split` took apart.
-/

namespace Handout.Text

/-- The lines of a text, without their ends; the empty text is one empty line. -/
def split : List Char → List (List Char)
  | [] => [[]]
  | c :: r =>
    if c = '\n' then [] :: split r
    else
      match split r with
      | [] => [[c]]
      | l :: ls => (c :: l) :: ls

/-- Lines with a line end between neighbours. -/
def join : List (List Char) → List Char
  | [] => []
  | [l] => l
  | l :: ls => l ++ '\n' :: join ls

theorem split_ne_nil (cs : List Char) : split cs ≠ [] := by
  cases cs with
  | nil => simp [split]
  | cons c r =>
    unfold split
    split
    · simp
    · split <;> simp

theorem join_split (cs : List Char) : join (split cs) = cs := by
  induction cs with
  | nil => rfl
  | cons c r ih =>
    unfold split
    split
    · rename_i h
      subst h
      cases hs : split r with
      | nil => exact absurd hs (split_ne_nil r)
      | cons l ls => rw [← ih, hs]; rfl
    · cases hs : split r with
      | nil => exact absurd hs (split_ne_nil r)
      | cons l ls =>
        rw [← ih, hs]
        cases ls <;> rfl

/-- The lines of a string. -/
def linesOf (s : String) : List String := (split s.toList).map String.ofList

/-- The string of some lines. -/
def textOf (ls : List String) : String := String.ofList (join (ls.map String.toList))

end Handout.Text
