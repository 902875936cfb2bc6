/-
  Handout.Proofs.Literal.Advance — where the readers of a literal stop.

  A reader is handed what a text holds from some position on, and leaves what it holds from a later
  one on: an end of the text it was handed, which is shorter, since every way to an answer
  takes a character. A number has none before its value is known, but a run without characters
  has no value (`length_scanRun_of_ofRun`). Trivia may be nothing at all; they end at a character that begins
  none, or with the text.

  Proved:
  - `advancesAt`: so it is for every reader at every position of every text.
-/

import Handout.Proofs.Literal.Spelling

namespace Handout.Literal

variable {s t rest : List Char}

/-! ## Trivia -/

/-- White space, a comment or an escaped line end comes first. -/
def BeginsTrivia : List Char → Prop
  | [] => False
  | c :: r => Text.isBlank c = true ∨ c = '#' ∨ c = '\\' ∧ r.head? = some '\n'

theorem skipTrivia_suffix (s : List Char) : skipTrivia s <:+ s := by
  obtain ⟨w, hs, -⟩ := skipTrivia_split s
  exact ⟨w, hs.symm⟩

/-- What is behind the first character after trivia. -/
theorem suffix_of_skipTrivia {c : Char} {r : List Char} (h : skipTrivia s = c :: r) : r <:+ s :=
  (List.suffix_cons c r).trans (h ▸ skipTrivia_suffix s)

theorem not_beginsTrivia_skip (comment : Bool) (s : List Char) : ¬ BeginsTrivia (skip comment s) := by
  fun_induction skip comment s with
  | case1 => exact id
  | case2 _ _ ih => exact ih
  | case3 _ ih => exact ih
  | case4 _ _ _ _ ih => exact ih
  | case5 _ _ _ ih => exact ih
  | case6 c r hline hblank hcomment =>
    rintro (h | h | ⟨rfl, h⟩)
    · exact hblank h
    · exact hcomment h
    · obtain ⟨r', rfl⟩ := List.head?_eq_some_iff.mp h
      exact hline r' rfl rfl

/-! ## Tokens -/

theorem textBody_suffix {quote : Char} {v : List Char × List Char} (h : textBody quote s = .ok v) : v.2 <:+ s := by
  obtain ⟨b, hs, -⟩ := body_of_textBody h
  exact ⟨b ++ [quote], by simp [hs]⟩

theorem texts_suffix {quote : Char} {cs : List Char} (h : Took (texts quote s) cs rest) : rest <:+ s := by
  obtain ⟨_, h⟩ := h
  fun_induction texts quote s generalizing cs with
  | case1 => cases h
  | case2 => cases h
  | case3 quote s ds u hbody _ next r hskip _ _ p hp ih =>
    cases h
    exact (ih p.shorter hp).trans ((suffix_of_skipTrivia hskip).trans (textBody_suffix hbody))
  | case4 quote s ds u hbody =>
    cases h
    exact textBody_suffix hbody
  | case5 quote s ds u hbody =>
    cases h
    exact textBody_suffix hbody

theorem scanRun_suffix (s : List Char) : (scanRun s).rest <:+ s := by
  obtain ⟨b, hs, -⟩ := spells_of_scanRun s
  exact ⟨b, hs.symm⟩

/-- A run that has a value is not empty. -/
theorem length_scanRun_of_ofRun {v : Literal} (h : ofRun (scanRun s).text (scanRun s).isFloat = some v) :
    (scanRun s).rest.length < s.length := by
  obtain ⟨b, hs, hb⟩ := spells_of_scanRun s
  have hlength := congrArg List.length hs
  rw [List.length_append] at hlength
  cases b with
  | nil =>
    -- nothing was taken, so there is no text to have a value
    generalize (scanRun s).text = text, (scanRun s).isFloat = isFloat at h hb
    cases hb
    cases h
  | cons c b =>
    rw [List.length_cons] at hlength
    omega

theorem signedRun_advances {v : Literal} (h : ofRun (signedRun s).text (signedRun s).isFloat = some v) :
    (signedRun s).rest <:+ s ∧ (signedRun s).rest.length < s.length := by
  cases s with
  | nil => cases h
  | cons c r =>
    by_cases hsign : c = '-' ∨ c = '+'
    · rw [signedRun_of_sign hsign]
      exact ⟨(scanRun_suffix r).trans (List.suffix_cons c r), Nat.lt_succ_of_le (length_scanRun r)⟩
    · rw [signedRun_of_not_sign hsign] at h ⊢
      exact ⟨scanRun_suffix _, length_scanRun_of_ofRun h⟩

/-! ## Positions -/

/-- What a text holds from a position behind `i` on. -/
def EndsBehind (t : List Char) (i : Nat) (rest : List Char) : Prop := ∃ j, i < j ∧ j ≤ t.length ∧ rest = t.drop j

theorem exists_position {i : Nat} (hi : i ≤ t.length) (h : rest <:+ t.drop i) :
    ∃ j, i ≤ j ∧ j ≤ t.length ∧ rest = t.drop j := by
  have hle := h.length_le
  rw [List.length_drop] at hle
  have hdrop := List.suffix_iff_eq_drop.mp (h.trans (List.drop_suffix i t))
  exact ⟨t.length - rest.length, by omega, Nat.sub_le _ _, hdrop⟩

theorem endsBehind_of_suffix {i : Nat} (hi : i ≤ t.length) (h : rest <:+ t.drop i)
    (hlt : rest.length < (t.drop i).length) : EndsBehind t i rest := by
  obtain ⟨j, hij, hj, rfl⟩ := exists_position hi h
  refine ⟨j, ?_, hj, rfl⟩
  rw [List.length_drop, List.length_drop] at hlt
  omega

/-- At the opening mark behind trivia, what the mark encloses ends behind it. -/
theorem endsBehind_of_opened {i : Nat} {c : Char} {r : List Char} (hi : i ≤ t.length)
    (hs : skipTrivia (t.drop i) = c :: r) (h : rest <:+ r) : EndsBehind t i rest :=
  endsBehind_of_suffix hi (h.trans (suffix_of_skipTrivia hs)) (Nat.lt_of_le_of_lt h.length_le (length_of_skipTrivia hs))

theorem endsBehind_of_cons {i : Nat} {c : Char} {r : List Char} (hi : i ≤ t.length) (hs : t.drop i = c :: r)
    (h : rest <:+ r) : EndsBehind t i rest := by
  refine endsBehind_of_suffix hi ?_ ?_
  · rw [hs]
    exact h.trans (List.suffix_cons c r)
  · rw [hs]
    exact Nat.lt_succ_of_le h.length_le

/-- Handed what `t` holds from position `i` on, the readers stop in the text: the trivia where none begin, and
    every reader that answers at a later position. The opening mark of a dict or a group may have trivia in
    front of it. A run may be looked for anywhere, and is what a number is read from where one begins. -/
structure AdvancesAt (t : List Char) (i : Nat) : Prop where
  trivia : ∃ j, i ≤ j ∧ j ≤ t.length ∧ skipTrivia (t.drop i) = t.drop j ∧ ¬ BeginsTrivia (t.drop j)
  value : ∀ v rest, Took (value (t.drop i)) v rest → EndsBehind t i rest
  dict : ∀ r es rest, skipTrivia (t.drop i) = '\x7b' :: r → Took (entries r) es rest → EndsBehind t i rest
  items : ∀ close vs rest, Took (items close (t.drop i)) vs rest → EndsBehind t i rest
  group : ∀ r v rest, skipTrivia (t.drop i) = '(' :: r → Took (group r) v rest → EndsBehind t i rest
  texts : ∀ quote r cs rest, t.drop i = quote :: r → Took (texts quote r) cs rest → EndsBehind t i rest
  body : ∀ quote r cs rest, t.drop i = quote :: r → textBody quote r = .ok (cs, rest) → EndsBehind t i rest
  number : ∀ c r v rest, t.drop i = c :: r → Took (number c r) v rest → EndsBehind t i rest
  run : ∀ v, ofRun (signedRun (t.drop i)).text (signedRun (t.drop i)).isFloat = some v →
    EndsBehind t i (signedRun (t.drop i)).rest

theorem endsBehind_signedRun {i : Nat} {v : Literal} (hi : i ≤ t.length)
    (h : ofRun (signedRun (t.drop i)).text (signedRun (t.drop i)).isFloat = some v) :
    EndsBehind t i (signedRun (t.drop i)).rest :=
  endsBehind_of_suffix hi (signedRun_advances h).1 (signedRun_advances h).2

theorem advancesAt {i : Nat} (hi : i ≤ t.length) : AdvancesAt t i where
  trivia := by
    obtain ⟨j, hij, hj, hskip⟩ := exists_position hi (skipTrivia_suffix (t.drop i))
    exact ⟨j, hij, hj, hskip, hskip ▸ not_beginsTrivia_skip false _⟩
  value v rest h := by
    obtain ⟨w, u, hu, -, -⟩ := (spelled (t.drop i)).value v rest h
    exact endsBehind_of_suffix hi ⟨w ++ u, by rw [hu, List.append_assoc]⟩ h.1
  dict r es rest hs h := by
    obtain ⟨u, hu, -⟩ := (spelled r).entries es rest h
    exact endsBehind_of_opened hi hs ⟨u, hu.symm⟩
  items close vs rest h := by
    obtain ⟨u, hu, -⟩ := (spelled (t.drop i)).items close vs rest h
    exact endsBehind_of_suffix hi ⟨u, hu.symm⟩ h.1
  group r v rest hs h := by
    obtain ⟨u, hu, -⟩ := (spelled r).group v rest h
    exact endsBehind_of_opened hi hs ⟨u, hu.symm⟩
  texts quote r cs rest hs h := endsBehind_of_cons hi hs (texts_suffix h)
  body quote r cs rest hs h := endsBehind_of_cons hi hs (textBody_suffix h)
  number c r v rest hs h := by
    obtain ⟨-, hv, rfl⟩ := took_number_iff.mp h
    rw [← hs] at hv ⊢
    exact endsBehind_signedRun hi hv
  run v h := endsBehind_signedRun hi h

end Handout.Literal
