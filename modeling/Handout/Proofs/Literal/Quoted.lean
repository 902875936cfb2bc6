/-
  Handout.Proofs.Literal.Quoted — which texts may stand between double quotes as they are.

  Reading never makes a text longer: an escape that is known stands for one character at most, and
  each text in quotes has two quotes that it does not spell (`SpellsBody.length_le`,
  `SpellsTexts.length_le`). So what stands between a first and a last quote is read as itself
  only where it is one text in which no escape is known.

  Proved:
  - `parse_quoted_iff`: a text between double quotes is read as itself exactly when it has no double
    quote, no line end, and no backslash that makes an escape with what comes after it.
-/

import Handout.Proofs.Literal.Spelling

namespace Handout.Literal

variable {quote : Char} {s t cs : List Char}

/-! ## Texts that stand for themselves -/

/-- A text without a double quote or a line end, in which every backslash stands before a character that
    it makes no escape with. -/
def standsForItself : List Char → Bool
  | [] => true
  | '\\' :: e :: r => hexWidth? e == none && simpleEscape e == ['\\', e] && standsForItself r
  | c :: r => c != '\\' && c != '"' && c != '\n' && standsForItself r

theorem standsForItself_cons {c : Char} (hescape : c ≠ '\\') (r : List Char) :
    standsForItself (c :: r) = (c != '"' && c != '\n' && standsForItself r) := by
  rw [standsForItself.eq_def]
  split
  · rename_i heq
    cases heq
  · rename_i heq
    cases heq
    exact absurd rfl hescape
  · rename_i heq
    cases heq
    rw [bne_iff_ne.mpr hescape, Bool.true_and]

theorem notMem_of_standsForItself (h : standsForItself s = true) : '\n' ∉ s := by
  fun_induction standsForItself s with
  | case1 => exact List.not_mem_nil
  | case2 e r ih =>
    simp only [Bool.and_eq_true, beq_iff_eq] at h
    have he : e ≠ '\n' := by
      rintro rfl
      exact absurd h.1.2 (by decide)
    simp [Ne.symm he, ih h.2]
  | case3 c r _ ih =>
    simp only [Bool.and_eq_true, bne_iff_ne] at h
    simp [Ne.symm h.1.2, ih h.2]

/-- An escape is itself or one character at most. -/
theorem simpleEscape_eq_or (e : Char) : simpleEscape e = ['\\', e] ∨ (simpleEscape e).length ≤ 1 := by
  unfold simpleEscape
  split <;> simp

theorem SpellsBody.length_le (h : SpellsBody quote s cs) : cs.length ≤ s.length := by
  induction h with
  | nil => exact Nat.le_refl _
  | plain _ _ _ _ ih => exact Nat.succ_le_succ ih
  | @escape e s cs _ _ ih =>
    have he : (simpleEscape e).length ≤ 2 := by
      rcases simpleEscape_eq_or e with heq | hle
      · rw [heq]
        rfl
      · omega
    simp only [List.length_append, List.length_cons]
    omega
  | hex _ _ _ _ ih =>
    simp only [List.length_append, List.length_cons]
    omega

/-- What is read from as many characters as it has is what stands there. -/
theorem SpellsBody.eq_of_length (h : SpellsBody '"' s cs) (hlength : s.length ≤ cs.length) :
    s = cs ∧ standsForItself s = true := by
  induction h with
  | nil => exact ⟨rfl, rfl⟩
  | @plain c s cs hline hquote hescape _ ih =>
    obtain ⟨rfl, hs⟩ := ih (Nat.le_of_succ_le_succ hlength)
    refine ⟨rfl, ?_⟩
    rw [standsForItself_cons hescape]
    simp [hline, hquote, hs]
  | @escape e s cs hwidth hbody ih =>
    have hle := hbody.length_le
    simp only [List.length_append, List.length_cons] at hlength
    rcases simpleEscape_eq_or e with heq | hshort
    · rw [heq, List.length_cons, List.length_singleton] at hlength
      obtain ⟨rfl, hs⟩ := ih (by omega)
      refine ⟨by rw [heq]; rfl, ?_⟩
      simp [standsForItself, hwidth, heq, hs]
    · omega
  | @hex e d ds s cs code _ _ _ hbody _ =>
    have hle := hbody.length_le
    simp only [List.length_append, List.length_cons] at hlength
    omega

theorem spellsBody_self (h : standsForItself s = true) : SpellsBody '"' s s := by
  fun_induction standsForItself s with
  | case1 => exact .nil
  | case2 e r ih =>
    simp only [Bool.and_eq_true, beq_iff_eq] at h
    have hbody := SpellsBody.escape h.1.1 (ih h.2)
    rwa [h.1.2] at hbody
  | case3 c r _ ih =>
    simp only [Bool.and_eq_true, bne_iff_ne] at h
    exact .plain h.1.2 h.1.1.2 h.1.1.1 (ih h.2)

/-! ## Texts in quotes -/

theorem SpellsTexts.length_le (h : SpellsTexts t cs) : cs.length + 2 ≤ t.length := by
  induction h with
  | one _ hbody =>
    have hle := hbody.length_le
    simp only [List.length_append, List.length_cons, List.length_nil]
    omega
  | cons _ hbody _ _ ih =>
    have hle := hbody.length_le
    simp only [List.length_append, List.length_cons]
    omega

/-- What a text between double quotes spells with as many characters as stand between them is what stands
    there: a second text would have two quotes more. -/
theorem standsForItself_of_spellsTexts (h : SpellsTexts t cs) (ht : '"' :: (cs ++ ['"']) = t) :
    standsForItself cs = true := by
  have hlength := congrArg List.length ht
  cases h with
  | @one quote s cs _ hbody =>
    obtain ⟨rfl, htail⟩ := List.cons.inj ht
    obtain rfl : cs = s := List.append_cancel_right htail
    exact (hbody.eq_of_length (Nat.le_refl _)).2
  | cons _ hbody _ htexts =>
    have hle := hbody.length_le
    have hle' := htexts.length_le
    simp only [List.length_append, List.length_cons, List.length_nil] at hlength
    omega

/-- A text that is spelled from a double quote on is spelled by texts in quotes. -/
theorem spellsTexts_of_spells {r rest : List Char} (h : Spells t (.text (String.ofList cs))) (ht : '"' :: r = t ++ rest) :
    SpellsTexts t cs := by
  generalize hv : Literal.text (String.ofList cs) = v at h
  cases h with
  | text htexts =>
    have hcs := congrArg String.toList (Literal.text.inj hv)
    rw [String.toList_ofList, String.toList_ofList] at hcs
    exact hcs ▸ htexts
  | number hnumber =>
    cases hnumber with
    | signed hsign =>
      cases ht
      exact absurd hsign (by decide)
    | unsigned hc =>
      cases ht
      exact absurd hc (by decide)
  | group => cases ht
  | _ => cases hv

theorem Trivia.eq_nil_of_append {w u r : List Char} {c : Char} (h : Trivia w) (hc : IsStart c) (hs : c :: r = w ++ u) :
    w = [] := by
  cases h with
  | nil => rfl
  | blank hblank _ =>
    cases hs
    rw [hc.notBlank] at hblank
    cases hblank
  | comment _ _ =>
    cases hs
    exact absurd rfl hc.notComment
  | escapedLineEnd _ =>
    cases hs
    exact absurd rfl hc.notEscape

/-- A text put between double quotes is read as itself exactly when it stands for itself there. -/
theorem parse_quoted_iff (cs : List Char) :
    parse ('"' :: (cs ++ ['"'])) = .ok (.text (String.ofList cs)) ↔ standsForItself cs = true := by
  constructor
  · intro h
    obtain ⟨p, hp, hv⟩ := bind_eq_ok h
    unfold finish at hv
    split at hv
    · obtain ⟨w, t, hs, hw, ht⟩ := (spelled _).value p.value p.rest ⟨p.shorter, hp⟩
      rw [Except.ok.inj hv] at ht
      obtain rfl := hw.eq_nil_of_append (isStart_quote (Or.inr rfl)) hs
      have htexts := spellsTexts_of_spells ht hs
      -- the quotes around the text are all that it has room for
      have hlength := congrArg List.length hs
      have hle := htexts.length_le
      simp only [List.length_append, List.length_cons, List.length_nil] at hlength
      have hrest : p.rest = [] := List.eq_nil_of_length_eq_zero (by omega)
      rw [hrest, List.append_nil, List.nil_append] at hs
      exact standsForItself_of_spellsTexts htexts hs
    · cases hv
  · intro h
    have htexts : SpellsTexts ('"' :: (cs ++ ['"'])) cs := .one (Or.inr rfl) (spellsBody_self h)
    have hvalue := value_of_spells (w := []) (.text htexts) .nil (.of_ending (.trivia .nil))
    rw [List.nil_append, List.append_nil] at hvalue
    exact finish_took hvalue rfl

end Handout.Literal
