/-
  Handout.Text.Parsed — what a reader answers: a value and the text after it, which is
  shorter than the text it was given.
-/

namespace Handout

/-- What a reader took off the front of `s`. -/
structure Parsed (s : List Char) (α : Type) where
  value : α
  rest : List Char
  shorter : rest.length < s.length

/-- What follows the first character of a text no longer than `s` is shorter than `s`. -/
theorem length_lt_of_cons {s t r : List Char} {c : Char} (h : t = c :: r) (ht : t.length ≤ s.length) :
    r.length < s.length := by
  subst h
  exact Nat.lt_of_succ_le ht

end Handout
