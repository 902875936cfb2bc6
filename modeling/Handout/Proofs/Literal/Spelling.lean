/-
  Handout.Proofs.Literal.Spelling — the texts that are read as literals are those that spell one.

  One direction is by the grammar: what a text spells is read up to what may follow it, by the
  readers' own rules (`value_of_spells`). The other is by the length of the text: each reader
  takes its text apart as the grammar puts it together (`Spelled`), given that the readers it
  calls on shorter texts do.

  Proved:
  - `parse_eq_ok_iff`: a text is read as a value exactly when it spells the value.
-/

import Handout.Proofs.Literal.Token

namespace Handout.Literal

variable {s t w w' rest : List Char} {v : Literal}

/-! ## What a text spells is read -/

theorem lastOf_iff {es d : List (String × Literal)} : LastOf es d ↔ d = Table.ofEntries es := by
  constructor
  · intro h
    exact h.sorted.ext (Table.sorted_ofEntries es) fun k => by rw [h.find, Table.find?_ofEntries]
  · rintro rfl
    exact ⟨Table.sorted_ofEntries es, fun k => Table.find?_ofEntries k es⟩

theorem BeginsNumber.beginsValue {c : Char} (h : BeginsNumber c) : BeginsValue c := by
  rcases h with rfl | rfl | rfl | hdigit
  · exact beginsValue_of_mem _ (by decide)
  · exact beginsValue_of_mem _ (by decide)
  · exact beginsValue_of_mem _ (by decide)
  · exact beginsValue_of_isDigit hdigit

theorem head_of_spellsTexts {cs : List Char} (h : SpellsTexts t cs) : ∃ c r, t = c :: r ∧ BeginsValue c := by
  obtain ⟨quote, r, rfl, hquote, -⟩ := texts_of_spells h (MayFollow.of_ending (.trivia .nil))
  refine ⟨quote, r, rfl, ?_⟩
  rcases hquote with rfl | rfl <;> exact beginsValue_of_mem _ (by decide)

/-- What spells a value begins with no trivia and no separator. -/
theorem head_of_spells (h : Spells t v) : ∃ c r, t = c :: r ∧ BeginsValue c := by
  cases h with
  | noneName => exact ⟨'N', _, rfl, beginsValue_of_mem _ (by decide)⟩
  | trueName => exact ⟨'T', _, rfl, beginsValue_of_mem _ (by decide)⟩
  | falseName => exact ⟨'F', _, rfl, beginsValue_of_mem _ (by decide)⟩
  | text h => exact head_of_spellsTexts h
  | number h =>
    obtain ⟨c, r, rfl, hc, -⟩ := number_of_spells h (MayFollow.of_ending (.trivia .nil))
    exact ⟨c, r, rfl, hc.beginsValue⟩
  | list => exact ⟨'[', _, rfl, beginsValue_of_mem _ (by decide)⟩
  | empty => exact ⟨'(', _, rfl, beginsValue_of_mem _ (by decide)⟩
  | group => exact ⟨'(', _, rfl, beginsValue_of_mem _ (by decide)⟩
  | tuple => exact ⟨'(', _, rfl, beginsValue_of_mem _ (by decide)⟩
  | dict => exact ⟨'\x7b', _, rfl, beginsValue_of_mem _ (by decide)⟩

/-- Behind trivia a value comes first. -/
theorem skipTrivia_spells (hw : Trivia w) (h : Spells t v) (rest : List Char) :
    ∃ c r, skipTrivia (w ++ (t ++ rest)) = c :: r ∧ BeginsValue c := by
  obtain ⟨c, r, rfl, hc⟩ := head_of_spells h
  exact ⟨c, r ++ rest, hw.skip_start hc.toIsStart _, hc⟩

theorem MayFollow.name_ends (h : MayFollow rest) : ∀ d ∈ rest.head?, isNameChar d = false :=
  fun d hd => (h.not_goesOn d hd).1

theorem value_of_name {c : Char} {name : List Char} (hc : BeginsValue c) (halpha : Text.isAlphabetic c = true)
    (hname : ∀ d ∈ name, isNameChar d = true) (hv : ofName? (c :: name) = some v) (hw : Trivia w)
    (hrest : MayFollow rest) : Took (value (w ++ (c :: name ++ rest))) v rest :=
  value_name (hw.skip_start hc.toIsStart _) hrest.name_ends halpha hname hv

theorem skip_separator {c : Char} (hw : Trivia w) (hc : c ∈ separators) (r : List Char) :
    skipTrivia (w ++ c :: r) = c :: r := hw.skip_start (isStart_of_mem_separators c hc) r

theorem mem_separators_of_close {close : Char} (h : close = ']' ∨ close = ')') : close ∈ separators := by
  rcases h with rfl | rfl <;> decide

mutual

/-- What spells a value is read behind any trivia, up to what may follow it. -/
theorem value_of_spells : ∀ {t : List Char} {v : Literal}, Spells t v → ∀ {w rest : List Char}, Trivia w →
    MayFollow rest → Took (value (w ++ (t ++ rest))) v rest
  | _, _, .noneName, w, rest, hw, hrest =>
    value_of_name (beginsValue_of_mem 'N' (by decide)) (by decide) (List.all_eq_true.mp rfl) rfl hw hrest
  | _, _, .trueName, w, rest, hw, hrest =>
    value_of_name (beginsValue_of_mem 'T' (by decide)) (by decide) (List.all_eq_true.mp rfl) rfl hw hrest
  | _, _, .falseName, w, rest, hw, hrest =>
    value_of_name (beginsValue_of_mem 'F' (by decide)) (by decide) (List.all_eq_true.mp rfl) rfl hw hrest
  | _, _, .text h, w, rest, hw, hrest => by
    obtain ⟨quote, r, rfl, hquote, htook⟩ := texts_of_spells h hrest
    exact value_text hquote (hw.skip_start (isStart_quote hquote) _) htook
  | _, _, .number h, w, rest, hw, hrest => by
    obtain ⟨c, r, rfl, hc, htook⟩ := number_of_spells h hrest
    exact value_number (hw.skip_start hc.beginsValue.toIsStart _) hc htook
  | _, _, .list h, w, rest, hw, _ =>
    value_list (hw.skip_start (beginsValue_of_mem '[' (by decide)).toIsStart _) (items_of_spells h (Or.inl rfl) rest)
  | _, _, .empty (w := x) hx, w, rest, hw, _ => by
    have hassoc : '(' :: (x ++ [')']) ++ rest = '(' :: (x ++ ')' :: rest) := by simp
    rw [hassoc]
    exact value_group (hw.skip_start (beginsValue_of_mem '(' (by decide)).toIsStart _)
      (group_close (skip_separator hx (by decide) rest))
  | _, _, .group (w := x) (t := t) (z := y) hx h hy, w, rest, hw, _ => by
    have hassoc : '(' :: (x ++ (t ++ (y ++ [')']))) ++ rest = '(' :: (x ++ (t ++ (y ++ ')' :: rest))) := by simp
    obtain ⟨c, r, hskip, hc⟩ := skipTrivia_spells hx h (y ++ ')' :: rest)
    rw [hassoc]
    exact value_group (hw.skip_start (beginsValue_of_mem '(' (by decide)).toIsStart _)
      (group_one hskip (hc.ne (by decide)) (value_of_spells h hx (.of_separator hy (by decide) rest))
        (skip_separator hy (by decide) rest))
  | _, _, .tuple (w := x) (t := t) (z := y) (u := u) hx h hy hu, w, rest, hw, _ => by
    have hassoc : '(' :: (x ++ (t ++ (y ++ ',' :: u))) ++ rest = '(' :: (x ++ (t ++ (y ++ ',' :: (u ++ rest)))) := by simp
    obtain ⟨c, r, hskip, hc⟩ := skipTrivia_spells hx h (y ++ ',' :: (u ++ rest))
    rw [hassoc]
    exact value_group (hw.skip_start (beginsValue_of_mem '(' (by decide)).toIsStart _)
      (group_cons hskip (hc.ne (by decide)) (value_of_spells h hx (.of_separator hy (by decide) _))
        (skip_separator hy (by decide) _) (items_of_spells hu (Or.inr rfl) rest))
  | _, _, .dict h hd, w, rest, hw, _ => by
    obtain rfl := lastOf_iff.mp hd
    exact value_dict (hw.skip_start (beginsValue_of_mem '\x7b' (by decide)).toIsStart _) (entries_of_spells h rest)

theorem items_of_spells : ∀ {close : Char} {t : List Char} {vs : List Literal}, SpellsItems close t vs →
    (close = ']' ∨ close = ')') → ∀ rest : List Char, Took (items close (t ++ rest)) vs rest
  | close, _, _, .none (w := w) hw, hclose, rest => by
    have hassoc : w ++ [close] ++ rest = w ++ close :: rest := by simp
    rw [hassoc]
    exact items_close (skip_separator hw (mem_separators_of_close hclose) rest)
  | close, _, _, .one (w := w) (t := t) (z := z) hw h hz, hclose, rest => by
    have hassoc : w ++ (t ++ (z ++ [close])) ++ rest = w ++ (t ++ (z ++ close :: rest)) := by simp
    have hseparator := mem_separators_of_close hclose
    have hcomma : close ≠ ',' := by rcases hclose with rfl | rfl <;> decide
    obtain ⟨c, r, hskip, hc⟩ := skipTrivia_spells hw h (z ++ close :: rest)
    rw [hassoc]
    exact items_one hskip (hc.ne hseparator) hcomma (value_of_spells h hw (.of_separator hz hseparator rest))
      (skip_separator hz hseparator rest)
  | close, _, _, .cons (w := w) (t := t) (z := z) (u := u) hw h hz hu, hclose, rest => by
    have hassoc : w ++ (t ++ (z ++ ',' :: u)) ++ rest = w ++ (t ++ (z ++ ',' :: (u ++ rest))) := by simp
    obtain ⟨c, r, hskip, hc⟩ := skipTrivia_spells hw h (z ++ ',' :: (u ++ rest))
    rw [hassoc]
    exact items_cons hskip (hc.ne (mem_separators_of_close hclose))
      (value_of_spells h hw (.of_separator hz (by decide) _)) (skip_separator hz (by decide) _)
      (items_of_spells hu hclose rest)

theorem entries_of_spells : ∀ {t : List Char} {es : List (String × Literal)}, SpellsEntries t es →
    ∀ rest : List Char, Took (entries (t ++ rest)) es rest
  | _, _, .none (w := w) hw, rest => by
    have hassoc : w ++ ['\x7d'] ++ rest = w ++ '\x7d' :: rest := by simp
    rw [hassoc]
    exact entries_close (skip_separator hw (by decide) rest)
  | _, _, .one (w := w) (k := k) (z := z) (x := x) (t := t) (y := y) hw hk hz hx h hy, rest => by
    have hassoc : w ++ (k ++ (z ++ ':' :: (x ++ (t ++ (y ++ ['\x7d']))))) ++ rest =
        w ++ (k ++ (z ++ ':' :: (x ++ (t ++ (y ++ '\x7d' :: rest))))) := by simp
    obtain ⟨c, r, hskip, hc⟩ := skipTrivia_spells hw hk (z ++ ':' :: (x ++ (t ++ (y ++ '\x7d' :: rest))))
    rw [hassoc]
    exact entries_one hskip (hc.ne (by decide)) (value_of_spells hk hw (.of_separator hz (by decide) _))
      (skip_separator hz (by decide) _) (value_of_spells h hx (.of_separator hy (by decide) rest))
      (skip_separator hy (by decide) rest)
  | _, _, .cons (w := w) (k := k) (z := z) (x := x) (t := t) (y := y) (u := u) hw hk hz hx h hy hu, rest => by
    have hassoc : w ++ (k ++ (z ++ ':' :: (x ++ (t ++ (y ++ ',' :: u))))) ++ rest =
        w ++ (k ++ (z ++ ':' :: (x ++ (t ++ (y ++ ',' :: (u ++ rest)))))) := by simp
    obtain ⟨c, r, hskip, hc⟩ := skipTrivia_spells hw hk (z ++ ':' :: (x ++ (t ++ (y ++ ',' :: (u ++ rest)))))
    rw [hassoc]
    exact entries_cons hskip (hc.ne (by decide)) (value_of_spells hk hw (.of_separator hz (by decide) _))
      (skip_separator hz (by decide) _) (value_of_spells h hx (.of_separator hy (by decide) _))
      (skip_separator hy (by decide) _) (entries_of_spells hu rest)

end

/-! ## How a text is read -/

/-- The ways in which a value is read. -/
inductive ReadValue (s : List Char) : Literal → List Char → Prop
  | dict {r rest : List Char} {es : List (String × Literal)} :
      skipTrivia s = '\x7b' :: r → Took (entries r) es rest → ReadValue s (.dict (Table.ofEntries es)) rest
  | list {r rest : List Char} {vs : List Literal} :
      skipTrivia s = '[' :: r → Took (items ']' r) vs rest → ReadValue s (.list vs) rest
  | group {r rest : List Char} {v : Literal} : skipTrivia s = '(' :: r → Took (group r) v rest → ReadValue s v rest
  | text {quote : Char} {r cs rest : List Char} : skipTrivia s = quote :: r → quote = '\'' ∨ quote = '"' →
      Took (texts quote r) cs rest → ReadValue s (.text (String.ofList cs)) rest
  | number {c : Char} {r rest : List Char} {v : Literal} :
      skipTrivia s = c :: r → Took (number c r) v rest → ReadValue s v rest
  | name {c : Char} {r : List Char} {v : Literal} :
      skipTrivia s = c :: r → ofName? (c :: (spanName r).1) = some v → ReadValue s v (spanName r).2

theorem value_inv (h : Took (value s) v rest) : ReadValue s v rest := by
  obtain ⟨hlt, h⟩ := h
  rw [value] at h
  split at h
  · cases h
  · rename_i c r hs
    split at h
    · rename_i hc
      subst hc
      obtain ⟨p, hp, hv⟩ := bind_eq_ok h
      cases hv
      exact .dict hs ⟨p.shorter, hp⟩
    split at h
    · rename_i hc
      subst hc
      obtain ⟨p, hp, hv⟩ := bind_eq_ok h
      cases hv
      exact .list hs ⟨p.shorter, hp⟩
    split at h
    · rename_i hc
      subst hc
      obtain ⟨p, hp, hv⟩ := bind_eq_ok h
      cases hv
      exact .group hs ⟨p.shorter, hp⟩
    split at h
    · rename_i hc
      obtain ⟨p, hp, hv⟩ := bind_eq_ok h
      cases hv
      exact .text hs hc ⟨p.shorter, hp⟩
    split at h
    · obtain ⟨p, hp, hv⟩ := bind_eq_ok h
      cases hv
      exact .number hs ⟨p.shorter, hp⟩
    split at h
    · simp only at h
      split at h
      · rename_i hname
        cases h
        exact .name hs (by rw [ofName?, if_pos hname])
      split at h
      · rename_i hne hname
        cases h
        exact .name hs (by rw [ofName?, if_neg hne, if_pos hname])
      split at h
      · rename_i hne hne' hname
        cases h
        exact .name hs (by rw [ofName?, if_neg hne, if_neg hne', if_pos hname])
      · cases h
    · cases h

/-- The ways in which items are read. -/
inductive ReadItems (close : Char) (s : List Char) : List Literal → List Char → Prop
  | none {r : List Char} : skipTrivia s = close :: r → ReadItems close s [] r
  | one {u rest : List Char} {v : Literal} :
      Took (value s) v u → skipTrivia u = close :: rest → ReadItems close s [v] rest
  | cons {u r rest : List Char} {v : Literal} {vs : List Literal} : Took (value s) v u → skipTrivia u = ',' :: r →
      Took (items close r) vs rest → ReadItems close s (v :: vs) rest

theorem items_inv {close : Char} {vs : List Literal} (h : Took (items close s) vs rest) : ReadItems close s vs rest := by
  obtain ⟨hlt, h⟩ := h
  rw [items] at h
  split at h
  · cases h
  · rename_i c r hs
    split at h
    · rename_i hc
      subst hc
      cases h
      exact .none hs
    · obtain ⟨p, hp, h⟩ := bind_eq_ok h
      split at h
      · cases h
      · rename_i d t hu
        simp only at h
        split at h
        · rename_i hd
          subst hd
          obtain ⟨q, hq, hv⟩ := bind_eq_ok h
          cases hv
          exact .cons ⟨p.shorter, hp⟩ hu ⟨q.shorter, hq⟩
        split at h
        · rename_i hd
          cases h
          exact .one ⟨p.shorter, hp⟩ (hd ▸ hu)
        · cases h

/-- The ways in which a group is read. -/
inductive ReadGroup (s : List Char) : Literal → List Char → Prop
  | none {r : List Char} : skipTrivia s = ')' :: r → ReadGroup s (.list []) r
  | one {u rest : List Char} {v : Literal} :
      Took (value s) v u → skipTrivia u = ')' :: rest → ReadGroup s v rest
  | cons {u r rest : List Char} {v : Literal} {vs : List Literal} : Took (value s) v u → skipTrivia u = ',' :: r →
      Took (items ')' r) vs rest → ReadGroup s (.list (v :: vs)) rest

theorem group_inv (h : Took (group s) v rest) : ReadGroup s v rest := by
  obtain ⟨hlt, h⟩ := h
  rw [group] at h
  split at h
  · cases h
  · rename_i c r hs
    split at h
    · rename_i hc
      subst hc
      cases h
      exact .none hs
    · obtain ⟨p, hp, h⟩ := bind_eq_ok h
      split at h
      · cases h
      · rename_i d t hu
        simp only at h
        split at h
        · rename_i hd
          subst hd
          cases h
          exact .one ⟨p.shorter, hp⟩ hu
        split at h
        · rename_i hd
          subst hd
          obtain ⟨q, hq, hv⟩ := bind_eq_ok h
          cases hv
          exact .cons ⟨p.shorter, hp⟩ hu ⟨q.shorter, hq⟩
        · cases h

/-- The ways in which entries are read. -/
inductive ReadEntries (s : List Char) : List (String × Literal) → List Char → Prop
  | none {r : List Char} : skipTrivia s = '\x7d' :: r → ReadEntries s [] r
  | one {k x u rest : List Char} {key : String} {v : Literal} : Took (value s) (.text key) k →
      skipTrivia k = ':' :: x → Took (value x) v u → skipTrivia u = '\x7d' :: rest → ReadEntries s [(key, v)] rest
  | cons {k x u r rest : List Char} {key : String} {v : Literal} {es : List (String × Literal)} :
      Took (value s) (.text key) k → skipTrivia k = ':' :: x → Took (value x) v u → skipTrivia u = ',' :: r →
      Took (entries r) es rest → ReadEntries s ((key, v) :: es) rest

theorem entries_inv {es : List (String × Literal)} (h : Took (entries s) es rest) : ReadEntries s es rest := by
  obtain ⟨hlt, h⟩ := h
  rw [entries] at h
  split at h
  · cases h
  · rename_i c r hs
    split at h
    · rename_i hc
      subst hc
      cases h
      exact .none hs
    · obtain ⟨p, hp, h⟩ := bind_eq_ok h
      split at h
      · rename_i key hkey
        have hp' : Took (value s) (.text key) p.rest := ⟨p.shorter, hkey ▸ hp⟩
        split at h
        · cases h
        · rename_i d x hk
          simp only at h
          split at h
          · rename_i hd
            subst hd
            obtain ⟨q, hq, h⟩ := bind_eq_ok h
            split at h
            · cases h
            · rename_i e t hu
              split at h
              · rename_i he
                subst he
                obtain ⟨l, hl, hv⟩ := bind_eq_ok h
                cases hv
                exact .cons hp' hk ⟨q.shorter, hq⟩ hu ⟨l.shorter, hl⟩
              split at h
              · rename_i he
                subst he
                cases h
                exact .one hp' hk ⟨q.shorter, hq⟩ hu
              · cases h
          · cases h
      · cases h

/-! ## What is read spells a value -/

/-- Each reader takes a text apart as the grammar puts it together. -/
structure Spelled (s : List Char) : Prop where
  value : ∀ v rest, Took (value s) v rest → ∃ w t, s = w ++ (t ++ rest) ∧ Trivia w ∧ Spells t v
  items : ∀ close vs rest, Took (items close s) vs rest → ∃ t, s = t ++ rest ∧ SpellsItems close t vs
  group : ∀ v rest, Took (group s) v rest → ∃ t, s = t ++ rest ∧ Spells ('(' :: t) v
  entries : ∀ es rest, Took (entries s) es rest → ∃ t, s = t ++ rest ∧ SpellsEntries t es

theorem spells_of_name {c : Char} {r : List Char} (h : ofName? (c :: (spanName r).1) = some v) :
    Spells (c :: (spanName r).1) v := by
  rcases ofName?_eq_some h with ⟨hname, rfl⟩ | ⟨hname, rfl⟩ | ⟨hname, rfl⟩ <;> rw [hname]
  · exact .trueName
  · exact .falseName
  · exact .noneName

theorem length_of_skipTrivia {c : Char} {r : List Char} (h : skipTrivia s = c :: r) : r.length < s.length :=
  length_lt_of_cons h (length_skipTrivia s)

theorem spelled_value (ih : ∀ r : List Char, r.length < s.length → Spelled r) (h : Took (value s) v rest) :
    ∃ w t, s = w ++ (t ++ rest) ∧ Trivia w ∧ Spells t v := by
  cases value_inv h with
  | @dict r rest es hs hread =>
    obtain ⟨w, hw, rfl⟩ := trivia_of_skipTrivia hs
    obtain ⟨t, rfl, ht⟩ := (ih r (length_of_skipTrivia hs)).entries es rest hread
    exact ⟨w, '\x7b' :: t, rfl, hw, .dict ht (lastOf_iff.mpr rfl)⟩
  | @list r rest vs hs hread =>
    obtain ⟨w, hw, rfl⟩ := trivia_of_skipTrivia hs
    obtain ⟨t, rfl, ht⟩ := (ih r (length_of_skipTrivia hs)).items ']' vs rest hread
    exact ⟨w, '[' :: t, rfl, hw, .list ht⟩
  | @group r rest v hs hread =>
    obtain ⟨w, hw, rfl⟩ := trivia_of_skipTrivia hs
    obtain ⟨t, rfl, ht⟩ := (ih r (length_of_skipTrivia hs)).group v rest hread
    exact ⟨w, '(' :: t, rfl, hw, ht⟩
  | text hs hquote hread =>
    obtain ⟨w, hw, rfl⟩ := trivia_of_skipTrivia hs
    obtain ⟨t, ht, hspells⟩ := spells_of_texts hquote hread
    exact ⟨w, t, by rw [ht], hw, .text hspells⟩
  | number hs hread =>
    obtain ⟨w, hw, rfl⟩ := trivia_of_skipTrivia hs
    obtain ⟨t, ht, hspells⟩ := spells_of_number hread
    exact ⟨w, t, by rw [ht], hw, .number hspells⟩
  | @name c r v hs hname =>
    obtain ⟨w, hw, rfl⟩ := trivia_of_skipTrivia hs
    refine ⟨w, c :: (spanName r).1, ?_, hw, spells_of_name hname⟩
    rw [spanName, List.cons_append, List.takeWhile_append_dropWhile]

theorem spelled (s : List Char) : Spelled s := by
  induction hn : s.length using Nat.strongRecOn generalizing s with
  | ind n ih =>
    subst hn
    replace ih : ∀ r : List Char, r.length < s.length → Spelled r := fun r hr => ih _ hr r rfl
    have hvalue : ∀ v rest, Took (Literal.value s) v rest → ∃ w t, s = w ++ (t ++ rest) ∧ Trivia w ∧ Spells t v :=
      fun v rest h => spelled_value ih h
    refine ⟨hvalue, fun close vs rest h => ?_, fun v rest h => ?_, fun es rest h => ?_⟩
    · cases items_inv h with
      | none hs =>
        obtain ⟨w, hw, rfl⟩ := trivia_of_skipTrivia hs
        exact ⟨w ++ [close], by simp, .none hw⟩
      | one hv hu =>
        obtain ⟨w, t, rfl, hw, ht⟩ := hvalue _ _ hv
        obtain ⟨z, hz, rfl⟩ := trivia_of_skipTrivia hu
        exact ⟨w ++ (t ++ (z ++ [close])), by simp, .one hw ht hz⟩
      | @cons u r rest v vs hv hu hread =>
        have hlt := Nat.lt_trans (length_of_skipTrivia hu) hv.1
        obtain ⟨w, t, rfl, hw, ht⟩ := hvalue _ _ hv
        obtain ⟨z, hz, rfl⟩ := trivia_of_skipTrivia hu
        obtain ⟨y, rfl, hy⟩ := (ih r hlt).items close vs rest hread
        exact ⟨w ++ (t ++ (z ++ ',' :: y)), by simp, .cons hw ht hz hy⟩
    · cases group_inv h with
      | none hs =>
        obtain ⟨w, hw, rfl⟩ := trivia_of_skipTrivia hs
        exact ⟨w ++ [')'], by simp, .empty hw⟩
      | one hv hu =>
        obtain ⟨w, t, rfl, hw, ht⟩ := hvalue _ _ hv
        obtain ⟨z, hz, rfl⟩ := trivia_of_skipTrivia hu
        exact ⟨w ++ (t ++ (z ++ [')'])), by simp, .group hw ht hz⟩
      | @cons u r rest v vs hv hu hread =>
        have hlt := Nat.lt_trans (length_of_skipTrivia hu) hv.1
        obtain ⟨w, t, rfl, hw, ht⟩ := hvalue _ _ hv
        obtain ⟨z, hz, rfl⟩ := trivia_of_skipTrivia hu
        obtain ⟨y, rfl, hy⟩ := (ih r hlt).items ')' vs rest hread
        exact ⟨w ++ (t ++ (z ++ ',' :: y)), by simp, .tuple hw ht hz hy⟩
    · cases entries_inv h with
      | none hs =>
        obtain ⟨w, hw, rfl⟩ := trivia_of_skipTrivia hs
        exact ⟨w ++ ['\x7d'], by simp, .none hw⟩
      | @one k x u rest key v hk hcolon hv hu =>
        have hlt := Nat.lt_trans (length_of_skipTrivia hcolon) hk.1
        obtain ⟨w, t, rfl, hw, ht⟩ := hvalue _ _ hk
        obtain ⟨z, hz, rfl⟩ := trivia_of_skipTrivia hcolon
        obtain ⟨x, t', rfl, hx, ht'⟩ := (ih _ hlt).value _ _ hv
        obtain ⟨y, hy, rfl⟩ := trivia_of_skipTrivia hu
        exact ⟨w ++ (t ++ (z ++ ':' :: (x ++ (t' ++ (y ++ ['\x7d']))))), by simp, .one hw ht hz hx ht' hy⟩
      | @cons k x u r rest key v es hk hcolon hv hu hread =>
        have hlt := Nat.lt_trans (length_of_skipTrivia hcolon) hk.1
        have hlt' := Nat.lt_trans (Nat.lt_trans (length_of_skipTrivia hu) hv.1) hlt
        obtain ⟨w, t, rfl, hw, ht⟩ := hvalue _ _ hk
        obtain ⟨z, hz, rfl⟩ := trivia_of_skipTrivia hcolon
        obtain ⟨x, t', rfl, hx, ht'⟩ := (ih _ hlt).value _ _ hv
        obtain ⟨y, hy, rfl⟩ := trivia_of_skipTrivia hu
        obtain ⟨l, rfl, hl⟩ := (ih _ hlt').entries es rest hread
        exact ⟨w ++ (t ++ (z ++ ':' :: (x ++ (t' ++ (y ++ ',' :: l))))), by simp, .cons hw ht hz hx ht' hy hl⟩

/-! ## Whole texts -/

/-- A text is read as a value exactly when it spells the value. -/
theorem parse_eq_ok_iff (s : List Char) (v : Literal) : parse s = .ok v ↔ SpellsWhole s v := by
  constructor
  · intro h
    obtain ⟨p, hp, hv⟩ := bind_eq_ok h
    unfold finish at hv
    split at hv
    · rename_i hrest
      cases hv
      obtain ⟨w, t, hs, hw, ht⟩ := (spelled s).value _ _ ⟨p.shorter, hp⟩
      exact ⟨w, t, p.rest, hs, hw, ht, ending_of_skipTrivia hrest⟩
    · cases hv
  · rintro ⟨w, t, z, rfl, hw, ht, hz⟩
    exact finish_took (value_of_spells ht hw (.of_ending hz)) hz.skip

end Handout.Literal
