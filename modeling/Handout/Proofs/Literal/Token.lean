/-
  Handout.Proofs.Literal.Token — trivia, texts and numbers: what is read is what is spelled.

  Each reader has one lemma that says when it answers what (`skipTrivia_split`,
  `textBody_eq_ok_iff`, `scanRun_split`); what follows a token matters for numbers only, and
  there only its first character (`scanRun_append`).
-/

import Handout.Proofs.Literal.Grammar
import Handout.Proofs.Literal.Reader

namespace Handout.Literal

variable {s t w w' cs rest : List Char}

/-! ## Trivia -/

theorem Trivia.append (h : Trivia w) (h' : Trivia w') : Trivia (w ++ w') := by
  induction h with
  | nil => exact h'
  | blank hc _ ih => exact .blank hc ih
  | comment hbody _ ih =>
    rw [List.cons_append, List.append_assoc]
    exact .comment hbody ih
  | escapedLineEnd _ ih => exact .escapedLineEnd ih

theorem skip_true_cons (c : Char) (s : List Char) : skip true (c :: s) = skip (c != '\n') s := rfl

theorem skip_comment {body : List Char} (h : '\n' ∉ body) (s : List Char) :
    skip true (body ++ '\n' :: s) = skip false s := by
  induction body with
  | nil => rfl
  | cons c body ih =>
    rw [List.mem_cons, not_or] at h
    have hc : (c != '\n') = true := by simpa using Ne.symm h.1
    rw [List.cons_append, skip_true_cons, hc, ih h.2]

theorem skip_open_comment {body : List Char} (h : '\n' ∉ body) : skip true body = [] := by
  induction body with
  | nil => rfl
  | cons c body ih =>
    rw [List.mem_cons, not_or] at h
    have hc : (c != '\n') = true := by simpa using Ne.symm h.1
    rw [skip_true_cons, hc, ih h.2]

theorem skipTrivia_comment (s : List Char) : skipTrivia ('#' :: s) = skip true s := by
  rw [skipTrivia, skip_cons (by decide), if_neg (by decide), if_pos rfl]

/-- Trivia are skipped. -/
theorem Trivia.skip (h : Trivia w) (s : List Char) : skipTrivia (w ++ s) = skipTrivia s := by
  induction h with
  | nil => rfl
  | blank hc _ ih => rw [List.cons_append, skipTrivia_blank hc, ih]
  | @comment body w hbody _ ih =>
    rw [List.cons_append, skipTrivia_comment, List.append_assoc, List.cons_append, skip_comment hbody]
    exact ih
  | escapedLineEnd _ ih => exact ih

theorem Ending.skip (h : Ending w) : skipTrivia w = [] := by
  cases h with
  | trivia hw =>
    have hskip := hw.skip []
    rwa [List.append_nil] at hskip
  | comment hw hbody => rw [hw.skip, skipTrivia_comment, skip_open_comment hbody]

theorem Ending.append (h : Trivia w) (h' : Ending w') : Ending (w ++ w') := by
  cases h' with
  | trivia hw => exact .trivia (h.append hw)
  | comment hw hbody =>
    rw [← List.append_assoc]
    exact .comment (h.append hw) hbody

/-- A comment goes on with any character but a line end. -/
theorem Trivia.comment_cons {c : Char} (h : Trivia ('#' :: w)) (hc : c ≠ '\n') : Trivia ('#' :: c :: w) := by
  cases h with
  | blank hblank _ => exact absurd hblank (by decide)
  | @comment body w hbody hw =>
    have hlonger : '\n' ∉ c :: body := by
      rw [List.mem_cons, not_or]
      exact ⟨Ne.symm hc, hbody⟩
    exact .comment hlonger hw

theorem Ending.comment_cons {c : Char} (h : Ending ('#' :: w)) (hc : c ≠ '\n') : Ending ('#' :: c :: w) := by
  generalize hs : '#' :: w = s at h
  cases h with
  | trivia hw =>
    subst hs
    exact .trivia (hw.comment_cons hc)
  | @comment front body hfront hbody =>
    cases front with
    | nil =>
      cases hs
      have hlonger : '\n' ∉ c :: w := by
        rw [List.mem_cons, not_or]
        exact ⟨Ne.symm hc, hbody⟩
      exact .comment .nil hlonger
    | cons d front =>
      cases hs
      exact .comment (hfront.comment_cons hc) hbody

/-- What stands before a text that may begin inside a comment. -/
def opening (comment : Bool) : List Char := if comment then ['#'] else []

theorem skip_split (comment : Bool) (s : List Char) :
    ∃ w, s = w ++ skip comment s ∧
      (Trivia (opening comment ++ w) ∨ skip comment s = [] ∧ Ending (opening comment ++ w)) := by
  fun_induction skip comment s with
  | case1 comment =>
    cases comment with
    | false => exact ⟨[], rfl, Or.inl .nil⟩
    | true => exact ⟨[], rfl, Or.inr ⟨rfl, Ending.comment .nil List.not_mem_nil⟩⟩
  | case2 c r ih =>
    obtain ⟨w, hr, hw⟩ := ih
    refine ⟨c :: w, congrArg _ hr, ?_⟩
    by_cases hc : c = '\n'
    · subst hc
      have hline : Trivia ['#', '\n'] := .comment List.not_mem_nil .nil
      have hending : Ending w → Ending ('#' :: '\n' :: w) := fun hw => Ending.append hline hw
      exact hw.imp hline.append (And.imp_right hending)
    · have hcomment : (c != '\n') = true := by simpa using hc
      rw [hcomment] at hw ⊢
      exact hw.imp (fun hw => hw.comment_cons hc) (And.imp_right fun hw => hw.comment_cons hc)
  | case3 r ih =>
    obtain ⟨w, hr, hw⟩ := ih
    have hline : Trivia ['\\', '\n'] := .escapedLineEnd .nil
    have hending : Ending w → Ending ('\\' :: '\n' :: w) := fun hw => Ending.append hline hw
    exact ⟨'\\' :: '\n' :: w, congrArg _ (congrArg _ hr), hw.imp hline.append (And.imp_right hending)⟩
  | case4 c r _ hblank ih =>
    obtain ⟨w, hr, hw⟩ := ih
    have hc : Trivia [c] := .blank hblank .nil
    have hending : Ending w → Ending (c :: w) := fun hw => Ending.append hc hw
    exact ⟨c :: w, congrArg _ hr, hw.imp hc.append (And.imp_right hending)⟩
  | case5 r _ _ ih =>
    obtain ⟨w, hr, hw⟩ := ih
    exact ⟨'#' :: w, congrArg _ hr, hw⟩
  | case6 c r => exact ⟨[], rfl, Or.inl .nil⟩

/-- In front of what is left there are trivia; where nothing is left, they may end in a comment. -/
theorem skipTrivia_split (s : List Char) :
    ∃ w, s = w ++ skipTrivia s ∧ (Trivia w ∨ skipTrivia s = [] ∧ Ending w) := skip_split false s

theorem trivia_of_skipTrivia {c : Char} {r : List Char} (h : skipTrivia s = c :: r) : ∃ w, Trivia w ∧ s = w ++ c :: r := by
  obtain ⟨w, hs, hw | ⟨hnone, -⟩⟩ := skipTrivia_split s
  · exact ⟨w, hw, h ▸ hs⟩
  · rw [h] at hnone
    cases hnone

theorem ending_of_skipTrivia (h : skipTrivia s = []) : Ending s := by
  obtain ⟨w, hs, hw⟩ := skipTrivia_split s
  rw [h, List.append_nil] at hs
  subst hs
  exact hw.elim .trivia And.right

theorem Trivia.skip_start {c : Char} (hw : Trivia w) (hc : IsStart c) (r : List Char) :
    skipTrivia (w ++ c :: r) = c :: r := by
  rw [hw.skip, skipTrivia_start hc]

/-! ## Texts -/

theorem bind_eq_ok {ε α β : Type} {x : Except ε α} {f : α → Except ε β} {b : β} (h : x >>= f = .ok b) :
    ∃ a, x = .ok a ∧ f a = .ok b := by
  cases x with
  | error e => cases h
  | ok a => exact ⟨a, rfl, h⟩

theorem hexDigits_eq_ok_iff {n code : Nat} {v : Nat × List Char} :
    hexDigits code n s = .ok v ↔
      ∃ ds vs, s = ds ++ v.2 ∧ ds.length = n ∧ ds.mapM Text.Hex.digit? = some vs ∧
        v.1 = vs.foldl (fun n v => n * 16 + v) code := by
  induction n generalizing code s with
  | zero =>
    constructor
    · intro h
      cases h
      exact ⟨[], [], rfl, rfl, rfl, rfl⟩
    · rintro ⟨ds, vs, rfl, hlength, hds, hv⟩
      obtain rfl := List.eq_nil_of_length_eq_zero hlength
      cases hds
      rw [List.nil_append, hexDigits]
      exact congrArg Except.ok (Prod.ext hv.symm rfl)
  | succ n ih =>
    cases s with
    | nil =>
      refine iff_of_false (fun h => by cases h) ?_
      rintro ⟨ds, vs, hnil, hlength, -⟩
      rw [(List.append_eq_nil_iff.mp hnil.symm).1] at hlength
      cases hlength
    | cons c r =>
      rw [hexDigits]
      cases hc : Text.Hex.digit? c with
      | none =>
        refine iff_of_false (fun h => by cases h) ?_
        rintro ⟨ds, vs, hs, hlength, hds, -⟩
        obtain ⟨d, ds, rfl⟩ := List.exists_cons_of_length_eq_add_one hlength
        cases hs
        simp [List.mapM_cons, hc] at hds
      | some d =>
        simp only [ih]
        constructor
        · rintro ⟨ds, vs, rfl, rfl, hds, hv⟩
          exact ⟨c :: ds, d :: vs, rfl, rfl, by simp [List.mapM_cons, hc, hds], hv⟩
        · rintro ⟨ds, vs, hs, hlength, hds, hv⟩
          obtain ⟨d', ds, rfl⟩ := List.exists_cons_of_length_eq_add_one hlength
          obtain ⟨rfl, rfl⟩ := List.cons.inj hs
          rw [List.mapM_cons, hc] at hds
          obtain ⟨vs', hvs, rfl⟩ : ∃ vs', ds.mapM Text.Hex.digit? = some vs' ∧ d :: vs' = vs := by
            cases hvs : ds.mapM Text.Hex.digit? <;> simp [hvs] at hds ⊢
            exact hds
          exact ⟨ds, vs', rfl, Nat.succ.inj hlength, hvs, hv⟩

theorem hexChar_eq_ok_iff {n : Nat} {v : Char × List Char} :
    hexChar n s = .ok v ↔
      ∃ ds code, s = ds ++ v.2 ∧ ds.length = n ∧ Text.Hex.number? ds = some code ∧
        Text.Hex.charOfCode? code = some v.1 := by
  constructor
  · intro h
    unfold hexChar at h
    cases hdigits : hexDigits 0 n s with
    | error f => rw [hdigits] at h; cases h
    | ok p =>
      rw [hdigits] at h
      obtain ⟨ds, vs, hs, hlength, hds, hp⟩ := hexDigits_eq_ok_iff.mp hdigits
      simp only [bind, Except.bind] at h
      split at h
      · rename_i c hc
        cases h
        exact ⟨ds, p.1, hs, hlength, by rw [Text.Hex.number?, hds, hp]; rfl, hc⟩
      · cases h
  · rintro ⟨ds, code, hs, hlength, hnumber, hchar⟩
    obtain ⟨vs, hds, hcode⟩ := Option.map_eq_some_iff.mp hnumber
    have hdigits : hexDigits 0 n s = .ok (code, v.2) := hexDigits_eq_ok_iff.mpr ⟨ds, vs, hs, hlength, hds, hcode.symm⟩
    simp only [hexChar, hdigits, bind, Except.bind, hchar]

/-- What is read up to the closing quote is the inside of a text. -/
theorem body_of_textBody {quote : Char} {v : List Char × List Char} (h : textBody quote s = .ok v) :
    ∃ b, s = b ++ quote :: v.2 ∧ SpellsBody quote b v.1 := by
  fun_induction textBody quote s generalizing v with
  | case1 => cases h
  | case2 => cases h
  | case3 r =>
    cases h
    exact ⟨[], rfl, .nil⟩
  | case4 => cases h
  | case5 e r hwidth _ _ ih =>
    obtain ⟨⟨cs, rest⟩, hp, hv⟩ := bind_eq_ok h
    cases hv
    obtain ⟨b, rfl, hb⟩ := ih hp
    exact ⟨'\\' :: e :: b, rfl, .escape hwidth hb⟩
  | case6 => cases h
  | case7 e r n hwidth d r' hhex _ _ _ ih =>
    obtain ⟨⟨cs, rest⟩, hp, hv⟩ := bind_eq_ok h
    cases hv
    obtain ⟨b, rfl, hb⟩ := ih hp
    obtain ⟨ds, code, rfl, rfl, hnumber, hchar⟩ := hexChar_eq_ok_iff.mp hhex
    exact ⟨'\\' :: e :: (ds ++ b), by simp, .hex hwidth hnumber hchar hb⟩
  | case8 c r hline hquote hescape ih =>
    obtain ⟨⟨cs, rest⟩, hp, hv⟩ := bind_eq_ok h
    cases hv
    obtain ⟨b, rfl, hb⟩ := ih hp
    exact ⟨c :: b, rfl, .plain hline hquote hescape hb⟩

/-- The inside of a text is read up to the closing quote. -/
theorem textBody_of_body {quote : Char} {b : List Char} (hquote : quote = '\'' ∨ quote = '"')
    (h : SpellsBody quote b cs) (rest : List Char) : textBody quote (b ++ quote :: rest) = .ok (cs, rest) := by
  have hline : quote ≠ '\n' := by
    rintro rfl
    exact absurd hquote (by decide)
  have hescape : '\\' ≠ quote := by
    rintro rfl
    exact absurd hquote (by decide)
  induction h with
  | nil =>
    rw [List.nil_append, textBody.eq_def]
    simp [hline]
  | plain hc hcquote hcescape _ ih =>
    rw [List.cons_append, textBody.eq_def]
    simp only [hc, hcquote, hcescape, if_false, ih, bind, Except.bind]
  | escape hwidth _ ih =>
    rw [List.cons_append, List.cons_append, textBody.eq_def]
    simp [hescape, hwidth, ih, bind, Except.bind]
  | @hex e d ds s cs code hwidth hnumber hchar _ ih =>
    have hhex : hexChar ds.length (ds ++ (s ++ quote :: rest)) = .ok (d, s ++ quote :: rest) :=
      hexChar_eq_ok_iff.mpr ⟨ds, code, rfl, rfl, hnumber, hchar⟩
    rw [List.cons_append, List.cons_append, List.append_assoc, textBody, if_neg (by decide), if_neg hescape, if_pos rfl]
    simp only [hwidth]
    split
    · rename_i he
      rw [hhex] at he
      cases he
    · rename_i he
      rw [hhex] at he
      cases he
      simp only [ih, bind, Except.bind]

/-! ## What may follow a value -/

/-- Nothing comes after a value but trivia and a separator. -/
def MayFollow (rest : List Char) : Prop := ∀ c ∈ (skipTrivia rest).head?, c ∈ separators

theorem MayFollow.of_ending (h : Ending w) : MayFollow w := by
  rw [MayFollow, h.skip]
  simp

theorem MayFollow.of_separator {c : Char} (hw : Trivia w) (hc : c ∈ separators) (r : List Char) :
    MayFollow (w ++ c :: r) := by
  rw [MayFollow, hw.skip_start (isStart_of_mem_separators c hc)]
  simpa using hc

/-- What may come first behind a value. -/
theorem MayFollow.head (h : MayFollow rest) :
    ∀ c ∈ rest.head?, Text.isBlank c = true ∨ c ∈ '#' :: '\\' :: separators := by
  intro c hc
  cases rest with
  | nil => cases hc
  | cons d r =>
    obtain rfl := Option.some.inj hc
    by_cases hescape : d = '\\'
    · exact Or.inr (by simp [hescape])
    · rw [MayFollow, skipTrivia, skip_cons hescape] at h
      split at h
      · rename_i hblank
        exact Or.inl hblank
      · split at h
        · rename_i hcomment
          exact Or.inr (by simp [hcomment])
        · exact Or.inr (List.mem_cons_of_mem _ (List.mem_cons_of_mem _ (h d rfl)))

/-- The code points of white space. -/
def blankCodes : List Nat :=
  [9, 10, 11, 12, 13, 0x20, 0x85, 0xa0, 0x1680, 0x2000, 0x2001, 0x2002, 0x2003, 0x2004, 0x2005, 0x2006, 0x2007, 0x2008,
    0x2009, 0x200a, 0x2028, 0x2029, 0x202f, 0x205f, 0x3000]

theorem mem_blankCodes {c : Char} (h : Text.isBlank c = true) : c.toNat ∈ blankCodes := by
  simp only [Text.isBlank, Bool.or_eq_true, Bool.and_eq_true, decide_eq_true_eq, beq_iff_eq] at h
  simp only [blankCodes, List.mem_cons, List.not_mem_nil, or_false]
  omega

/-- What may come first behind a value goes on with no name and no number. -/
theorem MayFollow.not_goesOn (h : MayFollow rest) :
    ∀ c ∈ rest.head?, isNameChar c = false ∧ c ≠ '.' ∧ c ≠ '+' ∧ c ≠ '-' := by
  intro c hc
  rcases h.head c hc with hblank | hother
  · have hall : ∀ n ∈ blankCodes, isNameChar (Char.ofNat n) = false ∧ Char.ofNat n ≠ '.' ∧ Char.ofNat n ≠ '+' ∧
        Char.ofNat n ≠ '-' := by decide +kernel
    have hcode := hall _ (mem_blankCodes hblank)
    rwa [Char.ofNat_toNat] at hcode
  · have hall : ∀ c ∈ '#' :: '\\' :: separators, isNameChar c = false ∧ c ≠ '.' ∧ c ≠ '+' ∧ c ≠ '-' := by
      simp only [separators, List.mem_cons, List.not_mem_nil, or_false, forall_eq_or_imp, forall_eq]
      decide +kernel
    exact hall c hother

/-! ## Adjacent texts -/

theorem MayFollow.not_quote (h : MayFollow rest) {c : Char} {r : List Char} (hs : skipTrivia rest = c :: r) :
    ¬ (c = '\'' ∨ c = '"') := by
  have hc : c ∈ separators := h c (by rw [hs]; rfl)
  have hall : ∀ c ∈ separators, ¬ (c = '\'' ∨ c = '"') := by simp [separators]
  exact hall c hc

theorem texts_last {quote : Char} (hbody : textBody quote s = .ok (cs, rest)) (hrest : MayFollow rest) :
    Took (texts quote s) cs rest := by
  refine ⟨length_textBody hbody, ?_⟩
  rw [texts]
  split
  · rename_i he
    rw [hbody] at he
    cases he
  · rename_i he
    rw [hbody] at he
    cases he
    split
    · rename_i hs
      rw [if_neg (hrest.not_quote hs)]
    · rfl

theorem texts_next {quote next : Char} {ds r t : List Char} (hbody : textBody quote s = .ok (cs, t))
    (hskip : skipTrivia t = next :: r) (hnext : next = '\'' ∨ next = '"') (h : Took (texts next r) ds rest) :
    Took (texts quote s) (cs ++ ds) rest := by
  obtain ⟨hlt, h⟩ := h
  have hlength := length_textBody hbody
  have hr := length_lt_of_cons hskip (length_skipTrivia t)
  refine ⟨by simp only at hlength; omega, ?_⟩
  rw [texts]
  split
  · rename_i he
    rw [hbody] at he
    cases he
  · rename_i he
    rw [hbody] at he
    cases he
    split
    · rename_i hs
      rw [hskip] at hs
      cases hs
      rw [if_pos hnext, h]
    · rename_i hs
      rw [hskip] at hs
      cases hs

theorem isStart_quote {quote : Char} (h : quote = '\'' ∨ quote = '"') : IsStart quote := by
  rcases h with rfl | rfl <;> exact ⟨by decide, by decide, by decide⟩

theorem texts_of_spells {t : List Char} (h : SpellsTexts t cs) (hrest : MayFollow rest) :
    ∃ quote s, t = quote :: s ∧ (quote = '\'' ∨ quote = '"') ∧ Took (texts quote (s ++ rest)) cs rest := by
  induction h with
  | @one quote s cs hquote hbody =>
    have hread := textBody_of_body hquote hbody rest
    refine ⟨quote, _, rfl, hquote, ?_⟩
    rw [List.append_assoc, List.singleton_append]
    exact texts_last hread hrest
  | @cons quote s w t cs ds hquote hbody hw _ ih =>
    obtain ⟨next, u, rfl, hnext, htook⟩ := ih
    have hread := textBody_of_body hquote hbody (w ++ next :: (u ++ rest))
    have hskip := hw.skip_start (isStart_quote hnext) (u ++ rest)
    refine ⟨quote, _, rfl, hquote, ?_⟩
    have hassoc : s ++ quote :: (w ++ next :: u) ++ rest = s ++ quote :: (w ++ next :: (u ++ rest)) := by simp
    rw [hassoc]
    exact texts_next hread hskip hnext htook

theorem spells_of_texts {quote : Char} (hquote : quote = '\'' ∨ quote = '"') (h : Took (texts quote s) cs rest) :
    ∃ t, quote :: s = t ++ rest ∧ SpellsTexts t cs := by
  obtain ⟨hlt, h⟩ := h
  fun_induction texts quote s generalizing cs with
  | case1 => cases h
  | case2 => cases h
  | case3 quote s ds t hbody _ next r hskip hnext _ p hp ih =>
    cases h
    obtain ⟨b, rfl, hb⟩ := body_of_textBody hbody
    obtain ⟨w, hw, ht⟩ := trivia_of_skipTrivia hskip
    obtain ⟨u, hu, hus⟩ := ih hnext p.shorter hp
    have hassoc : b ++ quote :: t = b ++ quote :: (w ++ u) ++ p.rest := by simp [ht, hu]
    exact ⟨quote :: (b ++ quote :: (w ++ u)), congrArg _ hassoc, .cons hquote hb hw hus⟩
  | case4 quote s ds t hbody =>
    cases h
    obtain ⟨b, rfl, hb⟩ := body_of_textBody hbody
    exact ⟨quote :: (b ++ [quote]), by simp, .one hquote hb⟩
  | case5 quote s ds t hbody =>
    cases h
    obtain ⟨b, rfl, hb⟩ := body_of_textBody hbody
    exact ⟨quote :: (b ++ [quote]), by simp, .one hquote hb⟩

/-! ## Numbers -/

theorem isNameChar_of_isDigit {c : Char} (h : c.isDigit = true) : isNameChar c = true := by
  have hsmall : c.toNat < 0x80 := by
    simp only [Char.isDigit, Bool.and_eq_true, decide_eq_true_eq, ge_iff_le, UInt32.le_iff_toNat_le] at h
    exact Nat.lt_of_le_of_lt h.2 (by decide)
  rw [isNameChar, Text.isAlphanumeric, if_pos hsmall, Char.isAlphanum, h]
  simp

theorem scanRun_underscore (s : List Char) : scanRun ('_' :: s) = scanRun s := by
  cases s with
  | nil => rfl
  | cons c r =>
    rw [scanRun]
    simp

theorem scanRun_signedMark {e sign : Char} (he : e = 'e' ∨ e = 'E') (hsign : sign = '+' ∨ sign = '-') (s : List Char) :
    scanRun (e :: sign :: s) = ⟨e :: sign :: (scanRun s).text, true, (scanRun s).rest⟩ := by
  rw [scanRun, if_pos ⟨he, hsign⟩]

theorem scanRun_mark {e : Char} (he : e = 'e' ∨ e = 'E') {s : List Char} (hs : ∀ c ∈ s.head?, c ≠ '+' ∧ c ≠ '-') :
    scanRun (e :: s) = ⟨e :: (scanRun s).text, true, (scanRun s).rest⟩ := by
  have hdigit : e.isDigit = false := by rcases he with rfl | rfl <;> rfl
  have hunderscore : e ≠ '_' := by rcases he with rfl | rfl <;> decide
  cases s with
  | nil => simp [scanRun, hdigit, hunderscore, he]
  | cons c r =>
    have hsign : ¬ (c = '+' ∨ c = '-') := not_or.mpr (hs c rfl)
    rw [scanRun]
    simp only [hsign, and_false, if_false, hdigit, Bool.false_eq_true, hunderscore, he, or_true, if_true]

theorem scanRun_stop {s : List Char} (hs : ∀ c ∈ s.head?, isNameChar c = false ∧ c ≠ '.') :
    scanRun s = ⟨[], false, s⟩ := by
  cases s with
  | nil => rfl
  | cons c r =>
    obtain ⟨hname, hpoint⟩ := hs c rfl
    have hdigit : c.isDigit = false := by
      cases hc : c.isDigit with
      | false => rfl
      | true =>
        rw [isNameChar_of_isDigit hc] at hname
        cases hname
    have hunderscore : c ≠ '_' := by
      rintro rfl
      exact absurd hname (by decide)
    have hmark : ¬ (c = 'e' ∨ c = 'E') := by
      rintro (rfl | rfl) <;> exact absurd hname (by decide)
    cases r with
    | nil => simp [scanRun, hdigit, hunderscore, hpoint, hmark]
    | cons d r =>
      rw [scanRun]
      simp [hdigit, hunderscore, hpoint, hmark]

theorem head_of_spellsRun {b : List Char} {isFloat : Bool} (h : SpellsRun b cs isFloat) :
    ∀ c ∈ b.head?, c ≠ '+' ∧ c ≠ '-' := by
  intro c hc
  cases h with
  | nil => cases hc
  | digit hdigit =>
    cases hc
    exact ⟨by rintro rfl; exact absurd hdigit (by decide), by rintro rfl; exact absurd hdigit (by decide)⟩
  | underscore => cases hc; decide
  | point => cases hc; decide
  | mark he => cases hc; rcases he with rfl | rfl <;> decide
  | signedMark he => cases hc; rcases he with rfl | rfl <;> decide

theorem scanRun_of_spells {b : List Char} {isFloat : Bool} (h : SpellsRun b cs isFloat) (hrest : MayFollow rest) :
    scanRun (b ++ rest) = ⟨cs, isFloat, rest⟩ := by
  induction h with
  | nil => exact scanRun_stop fun c hc => ⟨(hrest.not_goesOn c hc).1, (hrest.not_goesOn c hc).2.1⟩
  | digit hc _ ih => rw [List.cons_append, scanRun_digit hc, ih]
  | underscore _ ih => rw [List.cons_append, scanRun_underscore, ih]
  | point _ ih => rw [List.cons_append, scanRun_point, ih]
  | @mark e s cs isFloat he hs ih =>
    have hhead : ∀ c ∈ (s ++ rest).head?, c ≠ '+' ∧ c ≠ '-' := by
      cases s with
      | nil => exact fun c hc => (hrest.not_goesOn c hc).2.2
      | cons d s => exact fun c hc => head_of_spellsRun hs c hc
    rw [List.cons_append, scanRun_mark he hhead, ih]
  | signedMark he hsign _ ih => rw [List.cons_append, List.cons_append, scanRun_signedMark he hsign, ih]

theorem spells_of_scanRun (s : List Char) :
    ∃ b, s = b ++ (scanRun s).rest ∧ SpellsRun b (scanRun s).text (scanRun s).isFloat := by
  fun_induction scanRun s with
  | case1 => exact ⟨[], rfl, .nil⟩
  | case2 e sign r hmark _ ih =>
    obtain ⟨b, hr, hb⟩ := ih
    exact ⟨e :: sign :: b, congrArg _ (congrArg _ hr), .signedMark hmark.1 hmark.2 hb⟩
  | case3 c d r _ hdigit _ ih =>
    obtain ⟨b, hr, hb⟩ := ih
    exact ⟨c :: b, congrArg _ hr, .digit hdigit hb⟩
  | case4 d r _ _ ih =>
    obtain ⟨b, hr, hb⟩ := ih
    exact ⟨'_' :: b, congrArg _ hr, .underscore hb⟩
  | case5 c d r _ _ _ hfloat _ ih =>
    obtain ⟨b, hr, hb⟩ := ih
    rcases hfloat with rfl | hmark
    · exact ⟨'.' :: b, congrArg _ hr, .point hb⟩
    · exact ⟨c :: b, congrArg _ hr, .mark hmark hb⟩
  | case6 c d r => exact ⟨[], rfl, .nil⟩
  | case7 c hdigit => exact ⟨[c], rfl, .digit hdigit .nil⟩
  | case8 => exact ⟨['_'], rfl, .underscore .nil⟩
  | case9 c _ _ hfloat =>
    rcases hfloat with rfl | hmark
    · exact ⟨['.'], rfl, .point .nil⟩
    · exact ⟨[c], rfl, .mark hmark .nil⟩
  | case10 c => exact ⟨[], rfl, .nil⟩

/-- A run with the sign in front of it, wherever a number is looked for. -/
def signedRun : List Char → Run
  | [] => ⟨[], false, []⟩
  | c :: r =>
    if c = '-' ∨ c = '+' then ⟨c :: (scanRun r).text, (scanRun r).isFloat, (scanRun r).rest⟩ else scanRun (c :: r)

theorem signedRun_of_sign {c : Char} (h : c = '-' ∨ c = '+') (r : List Char) :
    signedRun (c :: r) = ⟨c :: (scanRun r).text, (scanRun r).isFloat, (scanRun r).rest⟩ := if_pos h

theorem signedRun_of_not_sign {c : Char} (h : ¬ (c = '-' ∨ c = '+')) (r : List Char) :
    signedRun (c :: r) = scanRun (c :: r) := if_neg h

theorem BeginsNumber.of_not_sign {c : Char} (h : BeginsNumber c) (hsign : ¬ (c = '-' ∨ c = '+')) :
    c.isDigit = true ∨ c = '.' := by
  rcases h with h | h | h | h
  · exact absurd (Or.inl h) hsign
  · exact absurd (Or.inr h) hsign
  · exact Or.inr h
  · exact Or.inl h

/-- Where a number begins, it is this run that is read. -/
theorem took_number_iff {c : Char} {r : List Char} {v : Literal} :
    Took (number c r) v rest ↔ BeginsNumber c ∧
      ofRun (signedRun (c :: r)).text (signedRun (c :: r)).isFloat = some v ∧ rest = (signedRun (c :: r)).rest := by
  constructor
  · rintro ⟨_, h⟩
    unfold number at h
    split at h
    · rename_i hsign
      simp only at h
      split at h
      · rename_i hv
        cases h
        rw [signedRun_of_sign hsign]
        exact ⟨hsign.imp_right Or.inl, hv, rfl⟩
      · cases h
    · rename_i hsign
      split at h
      · rename_i hc
        simp only at h
        split at h
        · rename_i hv
          cases h
          rw [signedRun_of_not_sign hsign]
          exact ⟨Or.inr (Or.inr hc.symm), hv, rfl⟩
        · cases h
      · cases h
  · rintro ⟨hc, hv, rfl⟩
    by_cases hsign : c = '-' ∨ c = '+'
    · rw [signedRun_of_sign hsign] at hv ⊢
      refine ⟨Nat.lt_succ_of_le (length_scanRun r), ?_⟩
      unfold number
      rw [if_pos hsign]
      simp only [hv]
    · rw [signedRun_of_not_sign hsign] at hv ⊢
      have hstart := hc.of_not_sign hsign
      refine ⟨Nat.lt_succ_of_le (length_scanRun_cons hstart r), ?_⟩
      unfold number
      rw [if_neg hsign, dif_pos hstart]
      simp only [hv]

/-- A number is read up to what follows it. -/
theorem number_of_spells {v : Literal} (h : SpellsNumber t v) (hrest : MayFollow rest) :
    ∃ c r, t = c :: r ∧ BeginsNumber c ∧ Took (number c (r ++ rest)) v rest := by
  cases h with
  | @signed sign s cs isFloat v hsign hrun hv =>
    have hstart : BeginsNumber sign := hsign.imp_right Or.inl
    refine ⟨sign, s, rfl, hstart, took_number_iff.mpr ⟨hstart, ?_⟩⟩
    rw [signedRun_of_sign hsign, scanRun_of_spells hrun hrest]
    exact ⟨hv, rfl⟩
  | @unsigned c s cs isFloat v hc hrun hv =>
    have hstart : BeginsNumber c := Or.inr (Or.inr hc.symm)
    have hsign : ¬ (c = '-' ∨ c = '+') := by
      rintro (rfl | rfl) <;> exact absurd hc (by decide)
    refine ⟨c, s, rfl, hstart, took_number_iff.mpr ⟨hstart, ?_⟩⟩
    rw [signedRun_of_not_sign hsign, ← List.cons_append, scanRun_of_spells hrun hrest]
    exact ⟨hv, rfl⟩

theorem spells_of_number {c : Char} {v : Literal} (h : Took (number c s) v rest) :
    ∃ t, c :: s = t ++ rest ∧ SpellsNumber t v := by
  have hlt := h.1
  obtain ⟨hc, hv, rfl⟩ := took_number_iff.mp h
  by_cases hsign : c = '-' ∨ c = '+'
  · rw [signedRun_of_sign hsign] at hv ⊢
    obtain ⟨b, hs, hb⟩ := spells_of_scanRun s
    exact ⟨c :: b, congrArg _ hs, .signed hsign hb hv⟩
  · rw [signedRun_of_not_sign hsign] at hv hlt ⊢
    obtain ⟨b, hs, hb⟩ := spells_of_scanRun (c :: s)
    -- the run takes the first character
    cases b with
    | nil =>
      rw [List.nil_append] at hs
      rw [← hs] at hlt
      exact absurd hlt (Nat.lt_irrefl _)
    | cons d b =>
      obtain ⟨rfl, -⟩ := List.cons.inj hs
      exact ⟨c :: b, hs, .unsigned (hc.of_not_sign hsign) hb hv⟩

end Handout.Literal
