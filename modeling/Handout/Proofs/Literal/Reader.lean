/-
  Handout.Proofs.Literal.Reader — what the readers of a literal take, one lemma for each way
  that they go on.

  The lemmas look at a text through what is left once its trivia are skipped, so a value
  is read the same after any indentation. Readers call one another and are opened here
  only.
-/

import Handout.Proofs.Literal.Text

namespace Handout.Literal

open Decimal (ne_of_isDigit)

/-! ## Trivia -/

/-- A character that begins something. -/
structure IsStart (c : Char) : Prop where
  notBlank : Text.isBlank c = false
  notComment : c ≠ '#'
  notEscape : c ≠ '\\'

theorem skip_cons {c : Char} (h : c ≠ '\\') (s : List Char) :
    skip false (c :: s) = if Text.isBlank c then skip false s else if c = '#' then skip true s else c :: s := by
  rw [skip.eq_def]
  split <;> rename_i heq
  · cases heq
  · rename_i hcomment
    cases hcomment
  · cases heq
    exact absurd rfl h
  · cases heq
    rfl

theorem skipTrivia_blank {c : Char} (h : Text.isBlank c = true) (s : List Char) :
    skipTrivia (c :: s) = skipTrivia s := by
  have hescape : c ≠ '\\' := by
    rintro rfl
    exact absurd h (by decide)
  rw [skipTrivia, skip_cons hescape, if_pos h]
  rfl

theorem skipTrivia_start {c : Char} (h : IsStart c) (s : List Char) : skipTrivia (c :: s) = c :: s := by
  rw [skipTrivia, skip_cons h.notEscape, if_neg (by rw [h.notBlank]; decide), if_neg h.notComment]

theorem skipTrivia_blanks {blanks : List Char} (h : ∀ c ∈ blanks, Text.isBlank c = true) (s : List Char) :
    skipTrivia (blanks ++ s) = skipTrivia s := by
  induction blanks with
  | nil => rfl
  | cons c blanks ih =>
    obtain ⟨hc, hrest⟩ := List.forall_mem_cons.mp h
    rw [List.cons_append, skipTrivia_blank hc, ih hrest]

theorem skipTrivia_comma (s : List Char) : skipTrivia (',' :: s) = ',' :: s :=
  skipTrivia_start ⟨by decide, by decide, by decide⟩ s

theorem skipTrivia_colon (s : List Char) : skipTrivia (':' :: s) = ':' :: s :=
  skipTrivia_start ⟨by decide, by decide, by decide⟩ s

theorem skipTrivia_of_follows {s : List Char} (h : Follows s) :
    skipTrivia s = [] ∨ ∃ c r, skipTrivia s = c :: r ∧ ¬ (c = '\'' ∨ c = '"') := by
  cases h with
  | nothing => exact Or.inl rfl
  | lineEnd => exact Or.inl rfl
  | comma r => exact Or.inr ⟨',', r, skipTrivia_comma r, by decide⟩
  | colon r => exact Or.inr ⟨':', r, skipTrivia_colon r, by decide⟩

/-! ## Starts and separators -/

/-- The characters that a list, a dict or a group goes on with. -/
def separators : List Char := [',', ':', ']', ')', '\x7d']

theorem isStart_of_mem_separators : ∀ c ∈ separators, IsStart c := by
  have hall : ∀ c ∈ separators, Text.isBlank c = false ∧ c ≠ '#' ∧ c ≠ '\\' := by
    simp only [separators, List.mem_cons, List.not_mem_nil, or_false, forall_eq_or_imp, forall_eq]
    decide
  exact fun c hc => ⟨(hall c hc).1, (hall c hc).2.1, (hall c hc).2.2⟩

/-- A character that begins a value is no trivia and no separator. -/
structure BeginsValue (c : Char) : Prop extends IsStart c where
  notSeparator : c ∉ separators

theorem BeginsValue.ne {c d : Char} (h : BeginsValue c) (hd : d ∈ separators) : c ≠ d := by
  rintro rfl
  exact h.notSeparator hd

theorem beginsValue_of_mem : ∀ c ∈ ['N', 'T', 'F', '\'', '"', '[', '(', '\x7b', '-', '+', '.'], BeginsValue c := by
  have hall : ∀ c ∈ ['N', 'T', 'F', '\'', '"', '[', '(', '\x7b', '-', '+', '.'],
      Text.isBlank c = false ∧ c ≠ '#' ∧ c ≠ '\\' ∧ c ∉ separators := by
    simp [separators, Text.isBlank]
  exact fun c hc => ⟨⟨(hall c hc).1, (hall c hc).2.1, (hall c hc).2.2.1⟩, (hall c hc).2.2.2⟩

theorem beginsValue_of_isDigit {c : Char} (h : c.isDigit = true) : BeginsValue c := by
  have hblank : Text.isBlank c = false := by
    simp only [Char.isDigit, Bool.and_eq_true, decide_eq_true_eq, ge_iff_le, UInt32.le_iff_toNat_le, Char.reduceVal,
      UInt32.reduceToNat] at h
    have hlow : 48 ≤ c.toNat := h.1
    have hhigh : c.toNat ≤ 57 := h.2
    simp [Text.isBlank]
    omega
  have hseparators : ∀ d ∈ separators, d.isDigit = false := by simp [separators]
  exact ⟨⟨hblank, ne_of_isDigit h rfl, ne_of_isDigit h rfl⟩, fun hc => ne_of_isDigit h (hseparators c hc) rfl⟩

/-! ## Texts -/

theorem texts_quoted (cs : List Char) {rest : List Char} (h : Follows rest) :
    Took (texts '\'' (cs.flatMap quoteChar ++ '\'' :: rest)) cs rest := by
  have hbody := textBody_quoted cs rest
  have hlt := length_textBody hbody
  refine ⟨hlt, ?_⟩
  rw [texts]
  split
  · rename_i he
    rw [hbody] at he
    cases he
  · rename_i he
    rw [hbody] at he
    cases he
    split
    · rename_i c r hskip
      rcases skipTrivia_of_follows h with hnil | ⟨d, t, hcons, hquote⟩
      · rw [hnil] at hskip
        cases hskip
      · rw [hcons] at hskip
        cases hskip
        rw [if_neg hquote]
    · rfl

/-! ## Values -/

section

variable {s r rest : List Char} {v : Literal}

theorem lt_of_took {α : Type} {x : Except Failure (Parsed r α)} {a : α} {c : Char} (hs : skipTrivia s = c :: r)
    (h : Took x a rest) : rest.length < s.length :=
  Nat.lt_trans h.1 (length_lt_of_cons hs (length_skipTrivia s))

theorem lt_of_skipTrivia {c : Char} {t : List Char} (hs : skipTrivia s = c :: (t ++ rest)) :
    rest.length < s.length := by
  have hlength := length_skipTrivia s
  rw [hs, List.length_cons, List.length_append] at hlength
  omega

theorem value_dict {es : List (String × Literal)} (hs : skipTrivia s = '\x7b' :: r) (h : Took (entries r) es rest) :
    Took (value s) (.dict (Table.ofEntries es)) rest := by
  refine ⟨lt_of_took hs h, ?_⟩
  obtain ⟨hlt, h⟩ := h
  rw [value]
  split <;> rename_i ht <;> rw [hs] at ht <;> cases ht
  rw [if_pos rfl]
  simp only [h, bind, Except.bind]

theorem value_list {vs : List Literal} (hs : skipTrivia s = '[' :: r) (h : Took (items ']' r) vs rest) :
    Took (value s) (.list vs) rest := by
  refine ⟨lt_of_took hs h, ?_⟩
  obtain ⟨hlt, h⟩ := h
  rw [value]
  split <;> rename_i ht <;> rw [hs] at ht <;> cases ht
  rw [if_neg (by decide), if_pos rfl]
  simp only [h, bind, Except.bind]

theorem value_group (hs : skipTrivia s = '(' :: r) (h : Took (group r) v rest) : Took (value s) v rest := by
  refine ⟨lt_of_took hs h, ?_⟩
  obtain ⟨hlt, h⟩ := h
  rw [value]
  split <;> rename_i ht <;> rw [hs] at ht <;> cases ht
  rw [if_neg (by decide), if_neg (by decide), if_pos rfl]
  simp only [h, bind, Except.bind]

theorem value_text {quote : Char} {cs : List Char} (hquote : quote = '\'' ∨ quote = '"')
    (hs : skipTrivia s = quote :: r) (h : Took (texts quote r) cs rest) :
    Took (value s) (.text (String.ofList cs)) rest := by
  have hne : quote ≠ '\x7b' ∧ quote ≠ '[' ∧ quote ≠ '(' := by rcases hquote with rfl | rfl <;> decide
  refine ⟨lt_of_took hs h, ?_⟩
  obtain ⟨hlt, h⟩ := h
  rw [value]
  split <;> rename_i ht <;> rw [hs] at ht <;> cases ht
  rw [if_neg hne.1, if_neg hne.2.1, if_neg hne.2.2, if_pos hquote]
  simp only [h, bind, Except.bind]

/-- A character that begins a number. -/
def BeginsNumber (c : Char) : Prop := c = '-' ∨ c = '+' ∨ c = '.' ∨ c.isDigit = true

theorem BeginsNumber.ne {c : Char} (h : BeginsNumber c) {d : Char} (hd : ¬ BeginsNumber d) : c ≠ d := by
  rintro rfl
  exact hd h

instance (c : Char) : Decidable (BeginsNumber c) := inferInstanceAs (Decidable (_ ∨ _))

theorem value_number {c : Char} (hs : skipTrivia s = c :: r) (hc : BeginsNumber c) (h : Took (number c r) v rest) :
    Took (value s) v rest := by
  have hstart : c = '-' ∨ c = '+' ∨ c = '.' ∨ c.isDigit = true := hc
  obtain ⟨hlt, h⟩ := h
  refine ⟨Nat.lt_of_lt_of_le hlt (hs ▸ length_skipTrivia s), ?_⟩
  rw [value]
  split <;> rename_i ht <;> rw [hs] at ht <;> cases ht
  rw [if_neg (hc.ne (by decide)), if_neg (hc.ne (by decide)), if_neg (hc.ne (by decide)),
    if_neg (not_or.mpr ⟨hc.ne (by decide), hc.ne (by decide)⟩), if_pos hstart]
  simp only [h, bind, Except.bind]

theorem head_isNameChar_of_follows (h : Follows rest) : ∀ c ∈ rest.head?, isNameChar c = false := by
  intro c hc
  cases h with
  | nothing => cases hc
  | lineEnd => cases hc; decide
  | comma r => cases hc; decide
  | colon r => cases hc; decide

theorem spanName_append {name : List Char} (hname : ∀ c ∈ name, isNameChar c = true)
    (hrest : ∀ c ∈ rest.head?, isNameChar c = false) : spanName (name ++ rest) = (name, rest) := by
  rw [spanName, List.takeWhile_append_of_pos hname, List.dropWhile_append_of_pos hname]
  cases rest with
  | nil => simp
  | cons c r => simp [hrest c rfl]

/-- The values that are names. -/
def ofName? (name : List Char) : Option Literal :=
  if name = "True".toList then some (.bool true)
  else if name = "False".toList then some (.bool false)
  else if name = "None".toList then some .null
  else none

theorem ofName?_eq_some {name : List Char} (h : ofName? name = some v) :
    (name = "True".toList ∧ v = .bool true) ∨ (name = "False".toList ∧ v = .bool false) ∨
      (name = "None".toList ∧ v = .null) := by
  unfold ofName? at h
  split at h
  · rename_i hname
    cases h
    exact .inl ⟨hname, rfl⟩
  · split at h
    · rename_i hname
      cases h
      exact .inr (.inl ⟨hname, rfl⟩)
    · split at h
      · rename_i hname
        cases h
        exact .inr (.inr ⟨hname, rfl⟩)
      · cases h

theorem ne_of_isAlphabetic {c d : Char} (h : Text.isAlphabetic c = true) (hd : Text.isAlphabetic d = false) :
    c ≠ d := by
  rintro rfl
  rw [hd] at h
  cases h

theorem isDigit_of_isAlphabetic {c : Char} (h : Text.isAlphabetic c = true) : c.isDigit = false := by
  by_contra hd
  simp only [Char.isDigit, Bool.not_eq_false, Bool.and_eq_true, decide_eq_true_eq, ge_iff_le,
    UInt32.le_iff_toNat_le] at hd
  have hn : c.toNat < 0x80 := Nat.lt_of_le_of_lt hd.2 (by decide)
  -- below 0x80 the table of letters is not looked at
  rw [Text.isAlphabetic, if_pos hn] at h
  delta Char.isAlpha Char.isUpper Char.isLower at h
  simp only [Bool.or_eq_true, Bool.and_eq_true, decide_eq_true_eq, ge_iff_le, UInt32.le_iff_toNat_le, Char.reduceVal,
    UInt32.reduceToNat] at h hd
  omega

theorem value_name {c : Char} {t : List Char} (hs : skipTrivia s = c :: (t ++ rest))
    (hrest : ∀ d ∈ rest.head?, isNameChar d = false) (hc : Text.isAlphabetic c = true) (ht : ∀ d ∈ t, isNameChar d = true) (hv : ofName? (c :: t) = some v) :
    Took (value s) v rest := by
  have hspan := spanName_append ht hrest
  have hne : ∀ d : Char, Text.isAlphabetic d = false → c ≠ d := fun d => ne_of_isAlphabetic hc
  have hquote : ¬(c = '\'' ∨ c = '"') := not_or.mpr ⟨hne _ (by decide), hne _ (by decide)⟩
  have hnumber : ¬(c = '-' ∨ c = '+' ∨ c = '.' ∨ c.isDigit = true) := by
    rintro (h | h | h | h)
    · exact hne _ (by decide) h
    · exact hne _ (by decide) h
    · exact hne _ (by decide) h
    · exact absurd h (by rw [isDigit_of_isAlphabetic hc]; decide)
  refine ⟨lt_of_skipTrivia hs, ?_⟩
  rw [value]
  split <;> rename_i ht <;> rw [hs] at ht <;> cases ht
  rw [if_neg (hne _ (by decide)), if_neg (hne _ (by decide)), if_neg (hne _ (by decide)), if_neg hquote, if_neg hnumber,
    if_pos (Or.inl hc)]
  simp only [hspan]
  rcases ofName?_eq_some hv with ⟨hname, rfl⟩ | ⟨hname, rfl⟩ | ⟨hname, rfl⟩
  · rw [if_pos hname]
  · rw [if_neg (by rw [hname]; decide), if_pos hname]
  · rw [if_neg (by rw [hname]; decide), if_neg (by rw [hname]; decide), if_pos hname]

/-! ## Items -/

theorem items_close {close : Char} (hs : skipTrivia s = close :: r) : Took (items close s) [] r := by
  refine ⟨length_lt_of_cons hs (length_skipTrivia s), ?_⟩
  rw [items]
  split <;> rename_i ht <;> rw [hs] at ht <;> cases ht
  rw [if_pos rfl]

theorem items_one {close c : Char} {t u : List Char} (hs : skipTrivia s = c :: t) (hc : c ≠ close)
    (hclose : close ≠ ',') (hv : Took (value s) v u) (hu : skipTrivia u = close :: rest) :
    Took (items close s) [v] rest := by
  obtain ⟨hltv, hv⟩ := hv
  refine ⟨Nat.lt_trans (length_lt_of_cons hu (length_skipTrivia u)) hltv, ?_⟩
  rw [items]
  split <;> rename_i ht <;> rw [hs] at ht <;> cases ht
  rw [if_neg hc]
  simp only [hv, bind, Except.bind]
  split <;> rename_i ht <;> rw [hu] at ht <;> cases ht
  rw [if_neg hclose, if_pos rfl]

theorem items_cons {close c : Char} {t u : List Char} {vs : List Literal} (hs : skipTrivia s = c :: t) (hc : c ≠ close)
    (hv : Took (value s) v u) (hu : skipTrivia u = ',' :: r) (h : Took (items close r) vs rest) :
    Took (items close s) (v :: vs) rest := by
  obtain ⟨hltv, hv⟩ := hv
  obtain ⟨hlt, h⟩ := h
  refine ⟨Nat.lt_trans hlt (Nat.lt_trans (length_lt_of_cons hu (length_skipTrivia u)) hltv), ?_⟩
  rw [items]
  split <;> rename_i ht <;> rw [hs] at ht <;> cases ht
  rw [if_neg hc]
  simp only [hv, bind, Except.bind]
  split <;> rename_i ht <;> rw [hu] at ht <;> cases ht
  rw [if_pos rfl]
  simp only [h]

/-! ## Groups -/

theorem group_close (hs : skipTrivia s = ')' :: r) : Took (group s) (.list []) r := by
  refine ⟨length_lt_of_cons hs (length_skipTrivia s), ?_⟩
  rw [group]
  split <;> rename_i ht <;> rw [hs] at ht <;> cases ht
  rw [if_pos rfl]

theorem group_one {c : Char} {t u : List Char} (hs : skipTrivia s = c :: t) (hc : c ≠ ')') (hv : Took (value s) v u)
    (hu : skipTrivia u = ')' :: rest) : Took (group s) v rest := by
  obtain ⟨hltv, hv⟩ := hv
  refine ⟨Nat.lt_trans (length_lt_of_cons hu (length_skipTrivia u)) hltv, ?_⟩
  rw [group]
  split <;> rename_i ht <;> rw [hs] at ht <;> cases ht
  rw [if_neg hc]
  simp only [hv, bind, Except.bind]
  split <;> rename_i ht <;> rw [hu] at ht <;> cases ht
  rw [if_pos rfl]

theorem group_cons {c : Char} {t u : List Char} {vs : List Literal} (hs : skipTrivia s = c :: t) (hc : c ≠ ')')
    (hv : Took (value s) v u) (hu : skipTrivia u = ',' :: r) (h : Took (items ')' r) vs rest) :
    Took (group s) (.list (v :: vs)) rest := by
  obtain ⟨hltv, hv⟩ := hv
  obtain ⟨hlt, h⟩ := h
  refine ⟨Nat.lt_trans hlt (Nat.lt_trans (length_lt_of_cons hu (length_skipTrivia u)) hltv), ?_⟩
  rw [group]
  split <;> rename_i ht <;> rw [hs] at ht <;> cases ht
  rw [if_neg hc]
  simp only [hv, bind, Except.bind]
  split <;> rename_i ht <;> rw [hu] at ht <;> cases ht
  rw [if_neg (by decide), if_pos rfl]
  simp only [h]

/-! ## Entries -/

theorem entries_close (hs : skipTrivia s = '\x7d' :: r) : Took (entries s) [] r := by
  refine ⟨length_lt_of_cons hs (length_skipTrivia s), ?_⟩
  rw [entries]
  split <;> rename_i ht <;> rw [hs] at ht <;> cases ht
  rw [if_pos rfl]

section

variable {c : Char} {t k u x : List Char} {key : String} {es : List (String × Literal)}

theorem entries_one (hs : skipTrivia s = c :: t) (hc : c ≠ '\x7d') (hkey : Took (value s) (.text key) k)
    (hk : skipTrivia k = ':' :: x) (hv : Took (value x) v u) (hu : skipTrivia u = '\x7d' :: rest) :
    Took (entries s) [(key, v)] rest := by
  obtain ⟨hltk, hkey⟩ := hkey
  obtain ⟨hltv, hv⟩ := hv
  have hx := length_lt_of_cons hk (length_skipTrivia k)
  have hrest := length_lt_of_cons hu (length_skipTrivia u)
  refine ⟨by omega, ?_⟩
  rw [entries]
  split <;> rename_i ht <;> rw [hs] at ht <;> cases ht
  rw [if_neg hc]
  simp only [hkey, bind, Except.bind]
  split <;> rename_i ht <;> rw [hk] at ht <;> cases ht
  rw [if_pos rfl]
  simp only [hv]
  split <;> rename_i ht <;> rw [hu] at ht <;> cases ht
  rw [if_neg (by decide), if_pos rfl]

theorem entries_cons (hs : skipTrivia s = c :: t) (hc : c ≠ '\x7d') (hkey : Took (value s) (.text key) k)
    (hk : skipTrivia k = ':' :: x) (hv : Took (value x) v u) (hu : skipTrivia u = ',' :: r)
    (h : Took (entries r) es rest) : Took (entries s) ((key, v) :: es) rest := by
  obtain ⟨hltk, hkey⟩ := hkey
  obtain ⟨hltv, hv⟩ := hv
  obtain ⟨hlt, h⟩ := h
  have hx := length_lt_of_cons hk (length_skipTrivia k)
  have hr := length_lt_of_cons hu (length_skipTrivia u)
  refine ⟨by omega, ?_⟩
  rw [entries]
  split <;> rename_i ht <;> rw [hs] at ht <;> cases ht
  rw [if_neg hc]
  simp only [hkey, bind, Except.bind]
  split <;> rename_i ht <;> rw [hk] at ht <;> cases ht
  rw [if_pos rfl]
  simp only [hv]
  split <;> rename_i ht <;> rw [hu] at ht <;> cases ht
  rw [if_pos rfl]
  simp only [h]

end

end

/-! ## Whole texts -/

theorem finish_took {s rest : List Char} {v : Literal} (h : Took (value s) v rest) (hrest : skipTrivia rest = []) :
    (value s).bind finish = .ok v := by
  obtain ⟨hlt, h⟩ := h
  rw [h]
  show finish _ = _
  unfold finish
  simp only [hrest]

end Handout.Literal
