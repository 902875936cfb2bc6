/-
  Handout.Proofs.Literal.Infinity — infinite floats, which are read and not read again.

  A float that is not finite is written as a call, which no reader takes: it begins with a name
  that is no value, or with a minus before one (`not_took_writeFloat`). The readers go through
  what was written as in `value_write`, now the other way: where a value was taken, what is
  written in it was taken, so there is no such float (`finite_of_value`).

  A float that is read is no NaN: it stands in the text as a numeral (`numeral_of_parseAssignment`),
  which is too large where the float is infinite (`signed_of_spellsNumber`).

  Proved:
  - `readable_iff`: a literal is read from its written form exactly when its floats are finite.
-/

import Handout.Proofs.Literal.RoundTrip
import Handout.Proofs.Literal.Spelling
import Handout.Proofs.Number.Overflow

namespace Handout.Literal

variable {s t rest : List Char} {v : Literal}

/-! ## What is written for a float that is not finite -/

theorem Took.unique {α : Type} {x : Except Failure (Parsed s α)} {a b : α} {u : List Char} (h : Took x a rest)
    (h' : Took x b u) : a = b ∧ rest = u := by
  obtain ⟨_, h⟩ := h
  obtain ⟨_, h'⟩ := h'
  rw [h] at h'
  cases h'
  exact ⟨rfl, rfl⟩

theorem writeFloat_head {d : Double} (h : d.isFinite = false) :
    ∃ r, writeFloat d = 'f' :: r ∨ writeFloat d = '-' :: 'f' :: r := by
  cases d with
  | nan => exact ⟨_, Or.inl rfl⟩
  | signed negative r =>
    have hr : r ≥ Double.infinityRank := by simpa [Double.isFinite, Double.isNaN, Double.isInfinite] using h
    unfold writeFloat
    simp only
    rw [if_pos hr]
    cases negative with
    | false => exact ⟨_, Or.inl rfl⟩
    | true => exact ⟨_, Or.inr rfl⟩

/-- A minus with a letter behind it is no number. -/
theorem not_took_minus (r : List Char) : ¬ Took (number '-' ('f' :: r)) v rest := by
  have hrun : scanRun ('f' :: r) = ⟨[], false, 'f' :: r⟩ := by
    cases r <;> simp [scanRun]
  rintro ⟨_, h⟩
  simp only [number, true_or, if_true, hrun] at h
  exact absurd h (by simp [ofRun, intOfText?])

theorem head_of_ofName? {c : Char} {r : List Char} (h : ofName? (c :: r) = some v) : c ∈ ['T', 'F', 'N'] := by
  rcases ofName?_eq_some h with ⟨hname, -⟩ | ⟨hname, -⟩ | ⟨hname, -⟩ <;> cases hname <;> decide

/-- A value that begins with another character than these is none. -/
theorem not_took_of_head {c : Char} {r : List Char} (hs : skipTrivia s = c :: r)
    (hc : c ∉ ['\x7b', '[', '(', '\'', '"', 'T', 'F', 'N']) (hnumber : ¬ Took (number c r) v rest) :
    ¬ Took (value s) v rest := by
  intro h
  cases value_inv h with
  | dict hs' => rw [hs] at hs'; cases hs'; exact hc (by decide)
  | list hs' => rw [hs] at hs'; cases hs'; exact hc (by decide)
  | group hs' => rw [hs] at hs'; cases hs'; exact hc (by decide)
  | text hs' hquote =>
    rw [hs] at hs'
    cases hs'
    rcases hquote with rfl | rfl <;> exact hc (by decide)
  | number hs' h' => rw [hs] at hs'; cases hs'; exact hnumber h'
  | name hs' hname =>
    rw [hs] at hs'
    cases hs'
    have hhead := head_of_ofName? hname
    simp only [List.mem_cons, List.not_mem_nil, or_false] at hc hhead
    tauto

theorem not_took_writeFloat {d : Double} (h : d.isFinite = false) {r : List Char} (hs : skipTrivia s = writeFloat d ++ r) :
    ¬ Took (value s) v rest := by
  obtain ⟨u, hu | hu⟩ := writeFloat_head h
  · rw [hu, List.cons_append] at hs
    exact not_took_of_head hs (by decide) fun h' => absurd (took_number_iff.mp h').1 (by decide)
  · rw [hu, List.cons_append, List.cons_append] at hs
    exact not_took_of_head hs (by decide) (not_took_minus _)

/-- Every value begins with such a character, also one that is not read. -/
theorem write_begins (depth : Nat) (v : Literal) : ∃ c r, write depth v = c :: r ∧ BeginsValue c := by
  by_cases hv : v.All IsFinite
  · exact write_head depth hv
  cases v with
  | float d =>
    have hd : d.isFinite = false := Bool.eq_false_iff.mpr hv
    obtain ⟨r, hr | hr⟩ := writeFloat_head hd
    · exact ⟨'f', r, hr, ⟨by decide, by decide, by decide⟩, by decide⟩
    · exact ⟨'-', 'f' :: r, hr, beginsValue_of_mem _ (by decide)⟩
  | list vs => cases vs <;> exact ⟨'[', _, rfl, beginsValue_of_mem _ (by decide)⟩
  | dict es => cases es <;> exact ⟨'\x7b', _, rfl, beginsValue_of_mem _ (by decide)⟩
  | null | bool b | int n | text cs => exact absurd trivial hv

theorem skipTrivia_written (depth : Nat) (v : Literal) (rest : List Char) :
    skipTrivia (write depth v ++ rest) = write depth v ++ rest := by
  obtain ⟨c, r, hwrite, hc⟩ := write_begins depth v
  rw [hwrite, List.cons_append, skipTrivia_start hc.toIsStart]

/-! ## What was written is read -/

theorem took_items {r : List Char} (hs : skipTrivia s = '[' :: r) (h : Took (value s) v rest) :
    ∃ vs, Took (items ']' r) vs rest := by
  cases value_inv h with
  | list hs' h' => rw [hs] at hs'; cases hs'; exact ⟨_, h'⟩
  | dict hs' => rw [hs] at hs'; cases hs'
  | group hs' => rw [hs] at hs'; cases hs'
  | text hs' hquote => rw [hs] at hs'; cases hs'; exact absurd hquote (by decide)
  | number hs' h' => rw [hs] at hs'; cases hs'; exact absurd (took_number_iff.mp h').1 (by decide)
  | name hs' hname => rw [hs] at hs'; cases hs'; exact absurd (head_of_ofName? hname) (by decide)

theorem took_entries {r : List Char} (hs : skipTrivia s = '\x7b' :: r) (h : Took (value s) v rest) :
    ∃ es, Took (entries r) es rest := by
  cases value_inv h with
  | dict hs' h' => rw [hs] at hs'; cases hs'; exact ⟨_, h'⟩
  | list hs' => rw [hs] at hs'; cases hs'
  | group hs' => rw [hs] at hs'; cases hs'
  | text hs' hquote => rw [hs] at hs'; cases hs'; exact absurd hquote (by decide)
  | number hs' h' => rw [hs] at hs'; cases hs'; exact absurd (took_number_iff.mp h').1 (by decide)
  | name hs' hname => rw [hs] at hs'; cases hs'; exact absurd (head_of_ofName? hname) (by decide)

mutual

/-- Where a value is read, what was written there has finite floats only. -/
theorem finite_of_value (depth : Nat) :
    ∀ (v : Literal) {s r rest : List Char} {w : Literal}, v.All IsTable → skipTrivia s = write depth v ++ r →
      Took (value s) w rest → v.All IsFinite
  | .null, _, _, _, _, _, _, _ => trivial
  | .bool _, _, _, _, _, _, _, _ => trivial
  | .int _, _, _, _, _, _, _, _ => trivial
  | .text _, _, _, _, _, _, _, _ => trivial
  | .float d, _, _, _, _, _, hs, h => by
    by_contra hd
    exact not_took_writeFloat (Bool.eq_false_iff.mpr hd) hs h
  | .list [], _, _, _, _, _, _, _ => ⟨trivial, trivial⟩
  | .list (v :: vs), _, _, _, _, ht, hs, h => by
    rw [write_list_cons] at hs
    obtain ⟨ws, hws⟩ := took_items hs h
    exact ⟨trivial, finite_of_items depth (v :: vs) ht.2 (skipTrivia_newline _) hws⟩
  | .dict [], _, _, _, _, _, _, _ => ⟨trivial, trivial⟩
  | .dict (e :: es), _, _, _, _, ht, hs, h => by
    rw [write_dict_cons] at hs
    obtain ⟨ws, hws⟩ := took_entries hs h
    exact ⟨trivial, finite_of_entries depth (e :: es) ht.2 (skipTrivia_newline _) hws⟩

theorem finite_of_items (depth : Nat) :
    ∀ (vs : List Literal) {s r rest : List Char} {ws : List Literal}, AllItems IsTable vs →
      skipTrivia s = skipTrivia (writeItems depth vs ++ (indent depth ++ ']' :: r)) → Took (items ']' s) ws rest →
        AllItems IsFinite vs
  | [], _, _, _, _, _, _, _ => trivial
  | v :: vs, _, _, _, _, ht, hs, h => by
    obtain ⟨c, u, hwrite, hc⟩ := write_begins (depth + 1) v
    rw [writeItems_cons, skipTrivia_indent, skipTrivia_written] at hs
    -- the value is read as it was written, so what follows it is a comma
    have hfirst : ∀ {w : Literal} {u : List Char}, Took (value _) w u → v.All IsFinite ∧ u = ',' :: '\n' :: _ := fun hv =>
      have hf := finite_of_value (depth + 1) v ht.1 hs hv
      ⟨hf, (hv.unique (value_write (depth + 1) v ht.1 hf hs (.comma _))).2⟩
    cases items_inv h with
    | none hclose =>
      rw [hs, hwrite, List.cons_append] at hclose
      cases hclose
      exact absurd rfl (hc.ne (by decide))
    | one hv hu =>
      obtain ⟨-, rfl⟩ := hfirst hv
      rw [skipTrivia_comma] at hu
      cases hu
    | cons hv hu hread =>
      obtain ⟨hf, rfl⟩ := hfirst hv
      rw [skipTrivia_comma] at hu
      cases hu
      exact ⟨hf, finite_of_items depth vs ht.2 (skipTrivia_newline _) hread⟩

theorem finite_of_entries (depth : Nat) :
    ∀ (es : List (String × Literal)) {s r rest : List Char} {ws : List (String × Literal)}, AllEntries IsTable es →
      skipTrivia s = skipTrivia (writeEntries depth es ++ (indent depth ++ '\x7d' :: r)) → Took (entries s) ws rest →
        AllEntries IsFinite es
  | [], _, _, _, _, _, _, _ => trivial
  | (k, v) :: es, s, r, rest, _, ht, hs, h => by
    rw [writeEntries_cons, skipTrivia_indent, skipTrivia_quote] at hs
    have hkey := value_quote hs (.colon _)
    have hs' : ∀ t, skipTrivia (' ' :: (write (depth + 1) v ++ t)) = write (depth + 1) v ++ t :=
      fun t => (skipTrivia_space _).trans (skipTrivia_written (depth + 1) v t)
    -- the key is read as it was written, so what follows the colon is the value
    have hfirst : ∀ {key : String} {k' x u : List Char} {w : Literal}, Took (value s) (.text key) k' →
        skipTrivia k' = ':' :: x → Took (value x) w u →
          v.All IsFinite ∧ u = ',' :: '\n' :: (writeEntries depth es ++ (indent depth ++ '\x7d' :: r)) := by
      intro key k' x u w hk hcolon hv
      obtain ⟨-, rfl⟩ := hk.unique hkey
      rw [skipTrivia_colon] at hcolon
      cases hcolon
      have hf := finite_of_value (depth + 1) v ht.1 (hs' _) hv
      exact ⟨hf, (hv.unique (value_write (depth + 1) v ht.1 hf (hs' _) (.comma _))).2⟩
    cases entries_inv h with
    | none hclose =>
      rw [hs] at hclose
      cases hclose
    | one hk hcolon hv hu =>
      obtain ⟨-, rfl⟩ := hfirst hk hcolon hv
      rw [skipTrivia_comma] at hu
      cases hu
    | cons hk hcolon hv hu hread =>
      obtain ⟨hf, rfl⟩ := hfirst hk hcolon hv
      rw [skipTrivia_comma] at hu
      cases hu
      exact ⟨hf, finite_of_entries depth es ht.2 (skipTrivia_newline _) hread⟩

end

/-- An assignment is read from its written form exactly when its floats are finite. -/
theorem readable_iff (ht : v.All IsTable) :
    (∃ w, parseAssignment (renderAssignment v) = .ok w) ↔ v.All IsFinite := by
  constructor
  · rintro ⟨w, h⟩
    rw [renderAssignment_eq, parseAssignment_eq] at h
    obtain ⟨p, hp, -⟩ := bind_eq_ok h
    exact finite_of_value 0 v ht ((skipTrivia_space _).trans (skipTrivia_written 0 v _)) ⟨p.shorter, hp⟩
  · intro hf
    exact ⟨v, parseAssignment_renderAssignment ht hf⟩

/-! ## Numerals -/

theorem ofRun_eq_some {text : List Char} {isFloat : Bool} (h : ofRun text isFloat = some v) :
    (∃ d, v = .float d ∧ isFloat = true ∧ Double.ofText? text = some d) ∨ ∃ n, v = .int n := by
  unfold ofRun at h
  split at h
  · rename_i hfloat
    obtain ⟨d, hd, rfl⟩ := Option.map_eq_some_iff.mp h
    exact Or.inl ⟨d, rfl, hfloat, hd⟩
  · obtain ⟨n, -, rfl⟩ := Option.map_eq_some_iff.mp h
    exact Or.inr ⟨n, rfl⟩

/-- A float is spelled by a numeral, with parentheses and trivia around it. -/
theorem numeral_of_spells {d : Double} (h : Spells t (.float d)) : ∃ u, u <:+: t ∧ SpellsNumber u (.float d) := by
  induction hn : t.length using Nat.strongRecOn generalizing t with
  | ind n ih =>
    cases h with
    | number h => exact ⟨t, List.infix_rfl, h⟩
    | @group w t z _ _ h _ =>
      obtain ⟨u, hu, hnumber⟩ := ih t.length (by simp at hn; omega) h rfl
      exact ⟨u, hu.trans ⟨'(' :: w, z ++ [')'], by simp⟩, hnumber⟩

theorem entries_of_dict {d : List (String × Literal)} (h : Spells t (.dict d)) :
    ∃ u es, u <:+: t ∧ SpellsEntries u es ∧ LastOf es d := by
  induction hn : t.length using Nat.strongRecOn generalizing t with
  | ind n ih =>
    cases h with
    | @dict t es _ h hlast => exact ⟨t, es, (List.suffix_cons _ t).isInfix, h, hlast⟩
    | @group w t z _ _ h _ =>
      obtain ⟨u, es, hu, hentries, hlast⟩ := ih t.length (by simp at hn; omega) h rfl
      exact ⟨u, es, hu.trans ⟨'(' :: w, z ++ [')'], by simp⟩, hentries, hlast⟩
    | number h =>
      cases h with
      | signed _ _ hv | unsigned _ _ hv => rcases ofRun_eq_some hv with ⟨d, hd, -⟩ | ⟨n, hn⟩ <;> contradiction

theorem spells_of_mem_entries : ∀ {t : List Char} {es : List (String × Literal)}, SpellsEntries t es →
    ∀ e ∈ es, ∃ u, u <:+: t ∧ Spells u e.2
  | _, _, .none _, e, he => by cases he
  | _, _, .one (w := w) (k := k) (z := z) (x := x) (t := t) (y := y) _ _ _ _ h _, e, he => by
    rw [List.mem_singleton.mp he]
    exact ⟨t, ⟨w ++ (k ++ (z ++ ':' :: x)), y ++ ['\x7d'], by simp⟩, h⟩
  | _, _, .cons (w := w) (k := k) (z := z) (x := x) (t := t) (y := y) (u := u) _ _ _ _ h _ hu, e, he => by
    rcases List.mem_cons.mp he with rfl | he
    · exact ⟨t, ⟨w ++ (k ++ (z ++ ':' :: x)), y ++ ',' :: u, by simp⟩, h⟩
    · obtain ⟨t', ht', hspells⟩ := spells_of_mem_entries hu e he
      exact ⟨t', ht'.trans ⟨w ++ (k ++ (z ++ ':' :: (x ++ (t ++ (y ++ [',']))))), [], by simp⟩, hspells⟩

/-- What is assigned stands in the text. -/
theorem spells_of_parseAssignment (h : parseAssignment s = .ok v) : ∃ u, u <:+: s ∧ Spells u v := by
  unfold parseAssignment at h
  simp only at h
  split at h
  · rename_i hname
    split at h
    · cases h
    · rename_i c r hequals
      split at h
      · obtain ⟨p, hp, hv⟩ := bind_eq_ok h
        have hvalue : p.value = v := by
          unfold finish at hv
          split at hv
          · exact Except.ok.inj hv
          · cases hv
        obtain ⟨w, t, hr, -, ht⟩ := (spelled r).value p.value p.rest ⟨p.shorter, hp⟩
        obtain ⟨w', -, hbehind⟩ := trivia_of_skipTrivia hequals
        have hsuffix : (spanName (skipTrivia s)).2 <:+: s := by
          cases hskip : skipTrivia s with
          | nil => exact List.nil_infix
          | cons d u =>
            obtain ⟨w'', -, hs⟩ := trivia_of_skipTrivia hskip
            have hdrop : (spanName (d :: u)).2 <:+: d :: u := (List.dropWhile_suffix _).isInfix
            exact hdrop.trans ⟨w'', [], by rw [hs, List.append_nil]⟩
        have hinside : t <:+: r := ⟨w, p.rest, by rw [List.append_assoc, ← hr]⟩
        have hrest : r <:+: (spanName (skipTrivia s)).2 := ⟨w' ++ [c], [], by rw [hbehind]; simp⟩
        exact ⟨t, hinside.trans (hrest.trans hsuffix), hvalue ▸ ht⟩
      · cases h
  · cases h

/-- A float of the assigned dict stands in the text as a numeral. -/
theorem numeral_of_parseAssignment {es : List (String × Literal)} {key : String} {d : Double}
    (h : parseAssignment s = .ok (.dict es)) (hfind : Table.find? key es = some (.float d)) :
    ∃ u, u <:+: s ∧ SpellsNumber u (.float d) := by
  obtain ⟨t, ht, hspells⟩ := spells_of_parseAssignment h
  obtain ⟨t', fs, ht', hentries, hlast⟩ := entries_of_dict hspells
  rw [hlast.find] at hfind
  obtain ⟨e, he, hvalue⟩ := Option.map_eq_some_iff.mp hfind
  obtain ⟨u, hu, hfloat⟩ := spells_of_mem_entries hentries e (List.mem_reverse.mp (List.mem_of_find?_eq_some he))
  rw [hvalue] at hfloat
  obtain ⟨u', hu', hnumber⟩ := numeral_of_spells hfloat
  exact ⟨u', hu'.trans (hu.trans (ht'.trans ht)), hnumber⟩

/-- A text has a numeral, sign apart, that is half a step or more above the largest double. -/
def Overflows (s : List Char) : Prop :=
  ∃ run text d, run <:+: s ∧ SpellsRun run text true ∧ Decimal.ofText? text = some d ∧ d.AtLeast Double.overflow

theorem Overflows.mono (h : Overflows t) (hpart : t <:+: s) : Overflows s := by
  obtain ⟨run, text, d, hrun, hspells, hread, hlarge⟩ := h
  exact ⟨run, text, d, hrun.trans hpart, hspells, hread, hlarge⟩

theorem text_of_spellsRun {run text : List Char} {isFloat : Bool} (h : SpellsRun run text isFloat) :
    ∀ c ∈ text.head?, c ≠ '-' ∧ c ≠ '+' := by
  intro c hc
  induction h with
  | nil => cases hc
  | digit hdigit =>
    cases hc
    exact ⟨Decimal.ne_of_isDigit hdigit rfl, Decimal.ne_of_isDigit hdigit rfl⟩
  | underscore _ ih => exact ih hc
  | point => cases hc; decide
  | mark he | signedMark he => cases hc; rcases he with rfl | rfl <;> decide

theorem ofText?_signed {sign : Char} {body : List Char} {d : Double} (hsign : sign = '-' ∨ sign = '+')
    (h : Double.ofText? (sign :: body) = some d) :
    ∃ negative dec, d = .signed negative dec.toRank ∧ Decimal.ofText? body = some dec := by
  rcases hsign with rfl | rfl
  · obtain ⟨dec, hdec, rfl⟩ := Option.map_eq_some_iff.mp (show (Decimal.ofText? body).map _ = some d from h)
    exact ⟨true, dec, rfl, hdec⟩
  · obtain ⟨dec, hdec, rfl⟩ := Option.map_eq_some_iff.mp (show (Decimal.ofText? body).map _ = some d from h)
    exact ⟨false, dec, rfl, hdec⟩

theorem ofText?_unsigned {text : List Char} {d : Double} (hhead : ∀ c ∈ text.head?, c ≠ '-' ∧ c ≠ '+')
    (h : Double.ofText? text = some d) : ∃ dec, d = .signed false dec.toRank ∧ Decimal.ofText? text = some dec := by
  cases text with
  | nil => cases h
  | cons c r =>
    have hread := Decimal.ofText?_signed rfl (hhead c rfl).1 (hhead c rfl).2 false (r := r)
    obtain ⟨dec, hdec, rfl⟩ := Option.map_eq_some_iff.mp (hread.symm.trans h)
    exact ⟨dec, rfl, hdec⟩

/-- A numeral without a sign is the double of its decimal. -/
theorem spellsNumber_of_decimal {c : Char} {run text : List Char} {dec : Decimal} (hc : c.isDigit = true ∨ c = '.')
    (hrun : SpellsRun (c :: run) text true) (hdec : Decimal.ofText? text = some dec) :
    SpellsNumber (c :: run) (.float (.signed false dec.toRank)) := by
  refine .unsigned hc hrun ?_
  cases text with
  | nil => cases hdec
  | cons d r =>
    obtain ⟨hminus, hplus⟩ := text_of_spellsRun hrun d rfl
    have hread : Double.ofText? (d :: r) = _ := Decimal.ofText?_signed rfl hminus hplus false
    rw [ofRun, if_pos rfl, hread, hdec]
    rfl

/-- A float that is read has a sign and a rank, and is infinite only where its numeral is too large. -/
theorem signed_of_spellsNumber {d : Double} (h : SpellsNumber t (.float d)) :
    ∃ negative r, d = .signed negative r ∧ r ≤ Double.infinityRank ∧ (r = Double.infinityRank → Overflows t) := by
  cases h with
  | @signed sign run text isFloat _ hsign hrun hv =>
    obtain ⟨_, hd, rfl, hread⟩ | ⟨n, hn⟩ := ofRun_eq_some hv
    · cases hd
      obtain ⟨negative, dec, rfl, hdec⟩ := ofText?_signed hsign hread
      refine ⟨negative, _, rfl, dec.toRank_le, fun hinfinite => ?_⟩
      exact ⟨run, text, dec, (List.suffix_cons _ run).isInfix, hrun, hdec, dec.toRank_eq_infinityRank_iff.mp hinfinite⟩
    · cases hn
  | @unsigned c run text isFloat _ hc hrun hv =>
    obtain ⟨_, hd, rfl, hread⟩ | ⟨n, hn⟩ := ofRun_eq_some hv
    · cases hd
      obtain ⟨dec, rfl, hdec⟩ := ofText?_unsigned (text_of_spellsRun hrun) hread
      refine ⟨false, _, rfl, dec.toRank_le, fun hinfinite => ?_⟩
      exact ⟨_, text, dec, List.infix_rfl, hrun, hdec, dec.toRank_eq_infinityRank_iff.mp hinfinite⟩
    · cases hn

end Handout.Literal
