/-
  Handout.Proofs.Json.Reader — what the readers of a JSON text take, one lemma for each way
  that they go on.

  The lemmas look at a text through what is left once the white space is skipped, so a
  value is read the same after any margin. The readers call one another and are opened
  here only.
-/

import Handout.Json.Token

namespace Handout.Json

variable {s r rest u : List Char}

/-- A reader has answered `v` and left `rest`. -/
def Took {α : Type} {s : List Char} (x : Option (Parsed s α)) (v : α) (rest : List Char) : Prop :=
  ∃ h, x = some ⟨v, rest, h⟩

/-! ## White space -/

theorem skipSpace_space {c : Char} (h : isSpace c = true) (s : List Char) : skipSpace (c :: s) = skipSpace s := by
  rw [skipSpace, List.dropWhile_cons_of_pos h]
  rfl

theorem skipSpace_start {c : Char} (h : isSpace c = false) (s : List Char) : skipSpace (c :: s) = c :: s :=
  List.dropWhile_cons_of_neg (by rw [h]; decide)

theorem skipSpace_blanks (n : Nat) (s : List Char) : skipSpace (List.replicate n ' ' ++ s) = skipSpace s := by
  induction n with
  | zero => rfl
  | succ n ih => rw [List.replicate_succ, List.cons_append, skipSpace_space (by decide), ih]

/-! ## Values -/

section

variable {v : Raw} {c : Char}

theorem lt_of_took {α : Type} {x : Option (Parsed r α)} {a : α} (hs : skipSpace s = c :: r) (h : Took x a rest) :
    rest.length < s.length :=
  Nat.lt_trans h.1 (length_lt_of_cons hs (length_skipSpace s))

theorem value_array {vs : List Raw} (hs : skipSpace s = '[' :: r) (h : Took (items r) vs rest) :
    Took (value s) (.array vs) rest := by
  refine ⟨lt_of_took hs h, ?_⟩
  obtain ⟨hlt, h⟩ := h
  rw [value]
  split <;> rename_i ht <;> rw [hs] at ht <;> cases ht
  rw [if_pos rfl]
  simp only [h, bind, Option.bind]

theorem value_object {ms : List (List Piece × Raw)} (hs : skipSpace s = '\x7b' :: r) (h : Took (members r) ms rest) :
    Took (value s) (.object ms) rest := by
  refine ⟨lt_of_took hs h, ?_⟩
  obtain ⟨hlt, h⟩ := h
  rw [value]
  split <;> rename_i ht <;> rw [hs] at ht <;> cases ht
  rw [if_neg (by decide), if_pos rfl]
  simp only [h, bind, Option.bind]

theorem value_scalar (hs : skipSpace s = c :: r) (hc : c ≠ '[') (hc' : c ≠ '\x7b') (h : Took (scalar c r) v rest) :
    Took (value s) v rest := by
  obtain ⟨hlt, h⟩ := h
  refine ⟨Nat.lt_of_lt_of_le hlt (hs ▸ length_skipSpace s), ?_⟩
  rw [value]
  split <;> rename_i ht <;> rw [hs] at ht <;> cases ht
  rw [if_neg hc, if_neg hc']
  simp only [h, bind, Option.bind]

theorem constant_append (v : Raw) (word : List Char) (c : Char) (rest : List Char) :
    Took (constant v word c (word ++ rest)) v rest := by
  have hafter : afterWord? word (word ++ rest) = some rest := by
    rw [afterWord?, if_pos (List.isPrefixOf_iff_prefix.mpr (List.prefix_append _ _)), List.drop_left]
  refine ⟨Nat.lt_succ_of_le (length_afterWord hafter), ?_⟩
  unfold constant
  split
  · rename_i heq
    rw [hafter] at heq
    cases heq
  · rename_i heq
    rw [hafter] at heq
    cases heq
    rfl

theorem scalar_null (rest : List Char) : Took (scalar 'n' ("ull".toList ++ rest)) .null rest := by
  rw [scalar, if_pos rfl]
  exact constant_append _ _ _ _

theorem scalar_true (rest : List Char) : Took (scalar 't' ("rue".toList ++ rest)) (.bool true) rest := by
  rw [scalar, if_neg (by decide), if_pos rfl]
  exact constant_append _ _ _ _

theorem scalar_false (rest : List Char) : Took (scalar 'f' ("alse".toList ++ rest)) (.bool false) rest := by
  rw [scalar, if_neg (by decide), if_neg (by decide), if_pos rfl]
  exact constant_append _ _ _ _

theorem scalar_text {ps : List Piece} (h : pieces r = some (ps, rest)) : Took (scalar '"' r) (.text ps) rest := by
  refine ⟨Nat.lt_succ_of_lt (length_pieces h), ?_⟩
  rw [scalar, if_neg (by decide), if_neg (by decide), if_neg (by decide), if_pos rfl]
  split
  · rename_i heq
    rw [h] at heq
    cases heq
  · rename_i heq
    rw [h] at heq
    cases heq
    rfl

theorem scalar_number {t : Numeral} (hc : c = '-' ∨ c.isDigit = true) (h : numeral? (c :: r) = some (t, rest)) :
    Took (scalar c r) (.number t) rest := by
  have hne : ∀ d : Char, d ≠ '-' → d.isDigit = false → c ≠ d := by
    rintro d hminus hdigit rfl
    rcases hc with hc | hc
    · exact hminus hc
    · rw [hdigit] at hc
      cases hc
  refine ⟨length_numeral h, ?_⟩
  rw [scalar, if_neg (hne 'n' (by decide) rfl), if_neg (hne 't' (by decide) rfl), if_neg (hne 'f' (by decide) rfl),
    if_neg (hne '"' (by decide) rfl)]
  split
  · rename_i heq
    rw [h] at heq
    cases heq
  · rename_i heq
    rw [h] at heq
    cases heq
    rfl

/-! ## Items -/

variable {vs : List Raw}

theorem items_close (hs : skipSpace s = ']' :: r) : Took (items s) [] r := by
  refine ⟨length_lt_of_cons hs (length_skipSpace s), ?_⟩
  rw [items]
  split <;> rename_i ht <;> rw [hs] at ht <;> cases ht
  rw [if_pos rfl]

theorem items_more (hs : skipSpace s = c :: r) (hc : c ≠ ']') (h : Took (moreItems s) vs rest) :
    Took (items s) vs rest := by
  obtain ⟨hlt, h⟩ := h
  refine ⟨hlt, ?_⟩
  rw [items]
  split <;> rename_i ht <;> rw [hs] at ht <;> cases ht
  rw [if_neg hc, h]

theorem moreItems_one (hv : Took (value s) v u) (hu : skipSpace u = ']' :: rest) : Took (moreItems s) [v] rest := by
  obtain ⟨hltv, hv⟩ := hv
  refine ⟨Nat.lt_trans (length_lt_of_cons hu (length_skipSpace u)) hltv, ?_⟩
  rw [moreItems]
  simp only [hv, bind, Option.bind]
  split <;> rename_i ht <;> rw [hu] at ht <;> cases ht
  rw [if_pos rfl]

theorem moreItems_cons (hv : Took (value s) v u) (hu : skipSpace u = ',' :: r) (h : Took (moreItems r) vs rest) :
    Took (moreItems s) (v :: vs) rest := by
  obtain ⟨hltv, hv⟩ := hv
  obtain ⟨hlt, h⟩ := h
  refine ⟨Nat.lt_trans hlt (Nat.lt_trans (length_lt_of_cons hu (length_skipSpace u)) hltv), ?_⟩
  rw [moreItems]
  simp only [hv, bind, Option.bind]
  split <;> rename_i ht <;> rw [hu] at ht <;> cases ht
  rw [if_neg (by decide), if_pos rfl]
  simp only [h]

/-! ## Members -/

variable {ms : List (List Piece × Raw)} {name : List Piece} {k x : List Char}

theorem members_close (hs : skipSpace s = '\x7d' :: r) : Took (members s) [] r := by
  refine ⟨length_lt_of_cons hs (length_skipSpace s), ?_⟩
  rw [members]
  split <;> rename_i ht <;> rw [hs] at ht <;> cases ht
  rw [if_pos rfl]

theorem members_more (hs : skipSpace s = c :: r) (hc : c ≠ '\x7d') (h : Took (moreMembers s) ms rest) :
    Took (members s) ms rest := by
  obtain ⟨hlt, h⟩ := h
  refine ⟨hlt, ?_⟩
  rw [members]
  split <;> rename_i ht <;> rw [hs] at ht <;> cases ht
  rw [if_neg hc, h]

theorem moreMembers_one (hs : skipSpace s = '"' :: r) (hk : pieces r = some (name, k)) (hx : skipSpace k = ':' :: x)
    (hv : Took (value x) v u) (hu : skipSpace u = '\x7d' :: rest) : Took (moreMembers s) [(name, v)] rest := by
  obtain ⟨hltv, hv⟩ := hv
  have hk' := length_pieces hk
  have hs' := length_lt_of_cons hs (length_skipSpace s)
  have hx' := length_lt_of_cons hx (length_skipSpace k)
  have hu' := length_lt_of_cons hu (length_skipSpace u)
  refine ⟨by simp only at hk'; omega, ?_⟩
  rw [moreMembers]
  split <;> rename_i ht
  · rw [hs] at ht
    cases ht
    split <;> rename_i he <;> rw [hk] at he <;> cases he
    simp only
    split <;> rename_i ht <;> rw [hx] at ht <;> cases ht
    rw [if_pos rfl]
    simp only [hv, bind, Option.bind]
    split <;> rename_i ht <;> rw [hu] at ht <;> cases ht
    rw [if_pos rfl]
  · exact absurd hs (ht _)

theorem moreMembers_cons (hs : skipSpace s = '"' :: r) (hk : pieces r = some (name, k)) (hx : skipSpace k = ':' :: x)
    (hv : Took (value x) v u) {t : List Char} (hu : skipSpace u = ',' :: t) (h : Took (moreMembers t) ms rest) :
    Took (moreMembers s) ((name, v) :: ms) rest := by
  obtain ⟨hltv, hv⟩ := hv
  obtain ⟨hlt, h⟩ := h
  have hk' := length_pieces hk
  have hs' := length_lt_of_cons hs (length_skipSpace s)
  have hx' := length_lt_of_cons hx (length_skipSpace k)
  have hu' := length_lt_of_cons hu (length_skipSpace u)
  refine ⟨by simp only at hk'; omega, ?_⟩
  rw [moreMembers]
  split <;> rename_i ht
  · rw [hs] at ht
    cases ht
    split <;> rename_i he <;> rw [hk] at he <;> cases he
    simp only
    split <;> rename_i ht <;> rw [hx] at ht <;> cases ht
    rw [if_pos rfl]
    simp only [hv, bind, Option.bind]
    split <;> rename_i ht <;> rw [hu] at ht <;> cases ht
    rw [if_neg (by decide), if_pos rfl]
    simp only [h]
  · exact absurd hs (ht _)

end

/-- A value with nothing after it but white space is the whole text. -/
theorem parse?_of_took {v : Raw} (hv : Took (value s) v rest) (hrest : skipSpace rest = []) : Raw.parse? s = some v := by
  obtain ⟨hlt, hv⟩ := hv
  rw [Raw.parse?, hv]
  simp [hrest]

end Handout.Json
