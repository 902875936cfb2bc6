/-
  Handout.Proofs.Json.Token — the texts and numbers of a JSON text are read as they were
  written, up to what follows them.

  A text is read piece by piece, each character from its own escape
  (`pieces_escapeChar`), and the pieces are the text again (`textOf?_pieces`). A number
  is one token, whatever may follow a value (`IsToken`); an integer of 64 bits is read
  back from its token (`value?_intToken`). A finite float is a token too, but its digits
  are taken into 64 bits and scaled with a rounding of their own, so it need not be read
  back.
-/

import Handout.Json.Printer
import Handout.Json.Reader
import Handout.Proofs.Number.Text
import Handout.Proofs.Text.Hex

namespace Handout.Json

open Decimal (IsDigits spanDigits sign writeInt writeInt_eq)

/-! ## Texts -/

/-- The control characters that have an escape letter of their own. -/
def lettered : List Char := ['\x08', '\x0c', '\n', '\r', '\t']

/-- What a character is read as from its escape. -/
def pieceOf (c : Char) : Piece := if c.toNat < 0x20 ∧ c ∉ lettered then .unit c.toNat else .char c

section

variable {s rest : List Char} {ps : List Piece}

theorem pieces_short {e c : Char} (hu : e ≠ 'u') (he : shortEscape? e = some c) (h : pieces s = some (ps, rest)) :
    pieces ('\\' :: e :: s) = some (.char c :: ps, rest) := by
  rw [pieces.eq_def]
  simp [hu, he, h]

theorem pieces_unit {n : Nat} (hn : n < 0x10000) (h : pieces s = some (ps, rest)) :
    pieces ('\\' :: 'u' :: (Text.Hex.digits 4 n ++ s)) = some (.unit n :: ps, rest) := by
  have hnumber := Text.Hex.number?_digits_four hn
  have hdigits : ∀ t, Text.Hex.digits 4 n ++ t = Nat.digitChar (n / 16 / 16 / 16 % 16) ::
      Nat.digitChar (n / 16 / 16 % 16) :: Nat.digitChar (n / 16 % 16) :: Nat.digitChar (n % 16) :: t := fun _ => rfl
  have hdigits' := hdigits []
  rw [List.append_nil] at hdigits'
  rw [hdigits'] at hnumber
  rw [hdigits, pieces]
  simp [hnumber, h]

theorem pieces_plain {c : Char} (hquote : c ≠ '"') (hescape : c ≠ '\\') (hcontrol : ¬ c.toNat < 0x20)
    (h : pieces s = some (ps, rest)) : pieces (c :: s) = some (.char c :: ps, rest) := by
  rw [pieces.eq_def]
  simp [hescape, hcontrol, h]

theorem pieces_escapeChar (c : Char) (h : pieces s = some (ps, rest)) :
    pieces (escapeChar c ++ s) = some (pieceOf c :: ps, rest) := by
  unfold escapeChar
  split
  · exact pieces_short (by decide) rfl h
  · exact pieces_short (by decide) rfl h
  · exact pieces_short (by decide) rfl h
  · exact pieces_short (by decide) rfl h
  · exact pieces_short (by decide) rfl h
  · exact pieces_short (by decide) rfl h
  · exact pieces_short (by decide) rfl h
  · rename_i hquote hescape hb hf hn hr ht
    have hlettered : c ∉ lettered := by
      simp only [lettered, List.mem_cons, List.not_mem_nil, or_false, not_or]
      exact ⟨hb, hf, hn, hr, ht⟩
    split
    · rename_i hcontrol
      rw [pieceOf, if_pos ⟨hcontrol, hlettered⟩]
      exact pieces_unit (by omega) h
    · rename_i hcontrol
      rw [pieceOf, if_neg fun hc => hcontrol hc.1]
      exact pieces_plain hquote hescape hcontrol h

end

/-- The inside of a text is read up to its closing quote. -/
theorem pieces_escaped (cs rest : List Char) :
    pieces (cs.flatMap escapeChar ++ '"' :: rest) = some (cs.map pieceOf, rest) := by
  induction cs with
  | nil =>
    rw [List.flatMap_nil, List.nil_append, pieces.eq_def]
    rfl
  | cons c cs ih =>
    rw [List.flatMap_cons, List.append_assoc]
    exact pieces_escapeChar c ih

theorem ofPieces_map (cs : List Char) : ofPieces (cs.map pieceOf) = some cs := by
  induction cs with
  | nil => rfl
  | cons c cs ih =>
    rw [List.map_cons, pieceOf]
    split
    · rename_i hc
      -- control characters are no surrogates
      have hlead : ¬ isLead c.toNat = true := by simp only [isLead, Bool.and_eq_true, decide_eq_true_eq]; omega
      have htrail : ¬ isTrail c.toNat = true := by simp only [isTrail, Bool.and_eq_true, decide_eq_true_eq]; omega
      rw [ofPieces.eq_def]
      simp only [if_neg hlead, if_neg htrail, ih, Option.map_some, Char.ofNat_toNat]
    · rw [ofPieces, ih, Option.map_some]

/-- The pieces of a text that is written. -/
def piecesOf (s : String) : List Piece := s.toList.map pieceOf

theorem textOf?_pieces (s : String) : textOf? (piecesOf s) = some s := by
  rw [textOf?, piecesOf, ofPieces_map, Option.map_some, String.ofList_toList]

/-! ## Parts of a number -/

/-- What comes after a value: nothing, the line end in front of the next line, or the comma
    after an item. -/
inductive Follows : List Char → Prop
  | nothing : Follows []
  | lineEnd (r : List Char) : Follows ('\n' :: r)
  | comma (r : List Char) : Follows (',' :: r)

/-- Digits that may stand before a point: only a single zero begins with one. -/
structure IsWhole (ds : List Char) : Prop where
  digits : IsDigits ds
  nonempty : ds ≠ []
  lead : ∀ r, ds = '0' :: r → r = []

section

variable {s rest ds : List Char}

/-- No digit comes first. -/
def NoDigit (s : List Char) : Prop := ∀ c ∈ s.head?, c.isDigit = false

theorem noDigit_cons {c : Char} (h : c.isDigit = false) (s : List Char) : NoDigit (c :: s) := by
  intro d hd
  cases hd
  exact h

theorem Follows.noDigit (h : Follows rest) : NoDigit rest := by
  cases h with
  | nothing => exact fun c hc => by cases hc
  | lineEnd r => exact noDigit_cons (by decide) r
  | comma r => exact noDigit_cons (by decide) r

theorem wholeDigits?_append (h : IsWhole ds) (hrest : NoDigit rest) : wholeDigits? (ds ++ rest) = some (ds, rest) := by
  have hspan := Decimal.spanDigits_append h.digits hrest
  unfold wholeDigits?
  rw [hspan]
  split
  · rename_i heq
    cases heq
    exact absurd rfl h.nonempty
  · rename_i heq
    cases heq
    exact absurd (h.lead _ rfl) (List.cons_ne_nil _ _)
  · rename_i heq
    cases heq
    rfl

theorem fraction?_point (h : IsDigits ds) (hne : ds ≠ []) (hrest : NoDigit rest) :
    fraction? ('.' :: (ds ++ rest)) = some (some ds, rest) := by
  have hspan := Decimal.spanDigits_append h hrest
  simp only [fraction?]
  split
  · rename_i heq
    rw [hspan] at heq
    cases heq
    exact absurd rfl hne
  · rename_i heq
    rw [hspan] at heq
    cases heq
    rfl

theorem fraction?_absent (h : s.head? ≠ some '.') : fraction? s = some (none, s) := by
  unfold fraction?
  split
  · exact absurd rfl h
  · rfl

theorem exponent?_absent (h : Follows s) : exponent? s = some (none, s) := by
  cases h with
  | nothing => rfl
  | lineEnd r => rfl
  | comma r => rfl

theorem Follows.fraction? (h : Follows s) : fraction? s = some (none, s) := by
  refine fraction?_absent ?_
  cases h with
  | nothing => exact Option.some_ne_none _ |>.symm
  | lineEnd r => simp
  | comma r => simp

end

theorem isWhole_toDigits (n : Nat) : IsWhole (Nat.toDigits 10 n) := by
  refine ⟨Decimal.isDigits_toDigits n, Nat.toDigits_ne_nil, ?_⟩
  induction n using Nat.strongRecOn with
  | ind n ih =>
    intro r hr
    by_cases hn : n < 10
    · rw [Nat.toDigits_of_lt_base hn] at hr
      exact (List.cons.inj hr).2.symm
    · -- the first digit is that of a tenth, which is not zero
      rw [Nat.toDigits_of_base_le (by decide) (by omega)] at hr
      cases htenth : Nat.toDigits 10 (n / 10) with
      | nil => exact absurd htenth Nat.toDigits_ne_nil
      | cons c t =>
        rw [htenth, List.cons_append] at hr
        obtain ⟨rfl, -⟩ := List.cons.inj hr
        have ht := ih (n / 10) (by omega) t htenth
        have hvalue := @Nat.ofDigitChars_ten_toDigits (n / 10)
        rw [htenth, ht] at hvalue
        have hzero : Nat.ofDigitChars 10 ['0'] 0 = 0 := rfl
        omega

/-! ## Tokens -/

/-- A text that is read as one token, whatever follows. -/
def IsToken (cs : List Char) (t : Numeral) : Prop := ∀ rest, Follows rest → numeral? (cs ++ rest) = some (t, rest)

theorem numeral?_parts {whole s₁ s₂ rest : List Char} {fraction : Option (List Char)}
    {exponent : Option (Bool × List Char)} (negative : Bool) (hwhole : IsWhole whole) (hs₁ : NoDigit s₁)
    (hfraction : fraction? s₁ = some (fraction, s₂)) (hexponent : exponent? s₂ = some (exponent, rest)) :
    numeral? (sign negative ++ (whole ++ s₁)) = some (⟨negative, whole, fraction, exponent⟩, rest) := by
  have hdigits := wholeDigits?_append hwhole hs₁
  cases negative with
  | true => simp [numeral?, sign, hdigits, hfraction, hexponent]
  | false =>
    obtain ⟨c, r, rfl⟩ := List.exists_cons_of_ne_nil hwhole.nonempty
    have hminus : c ≠ '-' := Decimal.ne_of_isDigit (hwhole.digits c (List.mem_cons_self ..)) rfl
    unfold numeral?
    simp only [sign, Bool.false_eq_true, if_false, List.nil_append, List.cons_append] at hdigits ⊢
    split
    · rename_i heq
      exact absurd (List.cons.inj heq).1 hminus
    · simp [hdigits, hfraction, hexponent]

/-- The token of an integer. -/
def intToken (n : Int) : Numeral := ⟨n < 0, Nat.toDigits 10 n.natAbs, none, none⟩

theorem isToken_int (n : Int) : IsToken (writeInt n) (intToken n) := by
  intro rest hrest
  rw [writeInt_eq, List.append_assoc]
  exact numeral?_parts _ (isWhole_toDigits _) hrest.noDigit hrest.fraction? (exponent?_absent hrest)

/-- A token begins with a sign or a digit. -/
theorem head_of_numeral? {s : List Char} {v : Numeral × List Char} (h : numeral? s = some v) :
    ∃ c r, s = c :: r ∧ (c = '-' ∨ c.isDigit = true) := by
  cases s with
  | nil => cases h
  | cons c r =>
    refine ⟨c, r, rfl, ?_⟩
    by_cases hminus : c = '-'
    · exact .inl hminus
    · refine .inr (by_contra fun hdigit => ?_)
      have hnone : wholeDigits? (c :: r) = none := by
        have hspan : spanDigits (c :: r) = ([], c :: r) := by simp [spanDigits, hdigit]
        rw [wholeDigits?, hspan]
      unfold numeral? at h
      split at h
      rename_i negative t hsplit
      split at hsplit
      · rename_i heq
        exact hminus (List.cons.inj heq).1
      · cases hsplit
        rw [hnone] at h
        cases h

/-! ## Floats -/

open Double (infinityRank)

theorem isWhole_zeros {ds : List Char} (h : IsWhole ds) {n : Nat} (hzero : ds = ['0'] → n = 0) :
    IsWhole (ds ++ Decimal.zeros n) := by
  refine ⟨Decimal.isDigits_append h.digits (Decimal.isDigits_zeros n), by simp [h.nonempty], ?_⟩
  intro r hr
  obtain ⟨c, t, rfl⟩ := List.exists_cons_of_ne_nil h.nonempty
  obtain ⟨rfl, rfl⟩ := List.cons.inj hr
  obtain rfl := h.lead t rfl
  rw [hzero rfl]
  rfl

theorem isWhole_take {ds : List Char} (h : IsWhole ds) {n : Nat} (hn : 0 < n) : IsWhole (ds.take n) := by
  refine ⟨fun c hc => h.digits c (List.mem_of_mem_take hc), by simp [h.nonempty]; omega, ?_⟩
  intro r hr
  obtain ⟨c, t, rfl⟩ := List.exists_cons_of_ne_nil h.nonempty
  obtain ⟨m, rfl⟩ := Nat.exists_eq_add_of_lt hn
  rw [Nat.zero_add, List.take_succ_cons] at hr
  obtain ⟨rfl, rfl⟩ := List.cons.inj hr
  rw [h.lead t rfl, List.take_nil]

/-- Written positionally, a number has digits on both sides of its point. -/
theorem writePositional_parts {ds : List Char} (h : IsWhole ds) {e : Int} (hzero : ds = ['0'] → e = 0) :
    ∃ whole part, Decimal.writePositional true ds e = whole ++ '.' :: part ∧ IsWhole whole ∧ IsDigits part ∧ part ≠ [] := by
  unfold Decimal.writePositional
  by_cases he : 0 ≤ e
  · refine ⟨ds ++ Decimal.zeros e.toNat, ['0'], by simp [he], isWhole_zeros h fun hds => ?_, Decimal.isDigits_zeros 1,
      by simp⟩
    rw [hzero hds]
    rfl
  · rw [if_neg he]
    by_cases hplaces : (-e).toNat < ds.length
    · refine ⟨ds.take (ds.length - (-e).toNat), ds.drop (ds.length - (-e).toNat), by simp [hplaces],
        isWhole_take h (by omega), fun c hc => h.digits c (List.mem_of_mem_drop hc), ?_⟩
      rw [ne_eq, List.drop_eq_nil_iff]
      omega
    · refine ⟨['0'], Decimal.zeros ((-e).toNat - ds.length) ++ ds, by simp [hplaces],
        ⟨Decimal.isDigits_zeros 1, by simp, fun r hr => (List.cons.inj hr).2.symm⟩,
        Decimal.isDigits_append (Decimal.isDigits_zeros _) h.digits, by simp [h.nonempty]⟩

theorem exponent?_writeInt (n : Int) {rest : List Char} (h : Follows rest) :
    exponent? ('e' :: ((if 0 ≤ n then ['+'] else []) ++ (writeInt n ++ rest))) =
      some (some (decide (n < 0), Nat.toDigits 10 n.natAbs), rest) := by
  have hspan := Decimal.spanDigits_append (Decimal.isDigits_toDigits n.natAbs) h.noDigit
  have hsign : takeSign ((if 0 ≤ n then ['+'] else []) ++ (writeInt n ++ rest)) =
      (decide (n < 0), Nat.toDigits 10 n.natAbs ++ rest) := by
    by_cases hn : n < 0
    · rw [if_neg (by omega), writeInt_eq]
      simp [hn, sign, takeSign]
    · rw [if_pos (by omega), writeInt_eq]
      simp [hn, sign, takeSign]
  simp only [exponent?, true_or, if_true, hsign]
  split
  · rename_i heq
    rw [hspan] at heq
    exact absurd (Prod.mk.inj heq).1 Nat.toDigits_ne_nil
  · rename_i heq
    rw [hspan] at heq
    obtain ⟨rfl, rfl⟩ := Prod.mk.inj heq
    rfl

theorem isToken_positional (negative : Bool) {ds : List Char} (h : IsWhole ds) {e : Int} (hzero : ds = ['0'] → e = 0) :
    ∃ t, IsToken (sign negative ++ Decimal.writePositional true ds e) t := by
  obtain ⟨whole, part, hwrite, hwhole, hpart, hne⟩ := writePositional_parts h hzero
  refine ⟨⟨negative, whole, some part, none⟩, fun rest hrest => ?_⟩
  rw [hwrite, List.append_assoc, List.append_assoc]
  exact numeral?_parts negative hwhole (noDigit_cons (by decide) _) (fraction?_point hpart hne hrest.noDigit)
    (exponent?_absent hrest)

theorem isToken_exponent (negative : Bool) {ds : List Char} (h : IsWhole ds) (lead : Int) :
    ∃ t, IsToken (sign negative ++ Decimal.writeExponent true ds lead) t := by
  obtain ⟨c, r, rfl⟩ := List.exists_cons_of_ne_nil h.nonempty
  have hc : IsWhole [c] := isWhole_take h (by decide : 0 < 1)
  have hmark : ∀ s, NoDigit ('e' :: s) := noDigit_cons (by decide)
  cases r with
  | nil =>
    refine ⟨⟨negative, [c], none, some (decide (lead < 0), Nat.toDigits 10 lead.natAbs)⟩, fun rest hrest => ?_⟩
    have hparts := numeral?_parts negative hc (hmark _) (fraction?_absent (by simp)) (exponent?_writeInt lead hrest)
    simpa [Decimal.writeExponent] using hparts
  | cons d r =>
    refine ⟨⟨negative, [c], some (d :: r), some (decide (lead < 0), Nat.toDigits 10 lead.natAbs)⟩, fun rest hrest => ?_⟩
    have hr : IsDigits (d :: r) := fun x hx => h.digits x (List.mem_cons_of_mem _ hx)
    have hparts := numeral?_parts negative hc (noDigit_cons (by decide) _)
      (fraction?_point hr (List.cons_ne_nil d r) (hmark _)) (exponent?_writeInt lead hrest)
    simpa [Decimal.writeExponent] using hparts

/-- Only zero is written with the digit zero alone, and without an exponent. -/
theorem exponent_shortest {r : Nat} (hr : r < infinityRank) (h : (Decimal.shortest r).digits = 0) :
    (Decimal.shortest r).exponent = 0 := by
  have hrank := Decimal.toRank_shortest hr
  rw [Decimal.toRank, if_pos h] at hrank
  rw [← hrank]
  rfl

theorem isToken_float {d : Double} (h : d.isFinite = true) : ∃ t, IsToken (d.write floatLayout [] []) t := by
  cases d with
  | nan => cases h
  | signed negative r =>
    have hr : r < infinityRank := by simpa [Double.isFinite, Double.isNaN, Double.isInfinite] using h
    have hdigits := isWhole_toDigits (Decimal.shortest r).digits
    have hwrite : (Double.signed negative r).write floatLayout [] [] =
        sign negative ++ floatLayout.write (Decimal.shortest r) := by
      simp [Double.write, sign, Nat.not_le.mpr hr]
    rw [hwrite]
    simp only [Decimal.Layout.write, floatLayout]
    split
    · refine isToken_positional negative hdigits fun hzero => exponent_shortest hr ?_
      have hvalue := @Nat.ofDigitChars_ten_toDigits (Decimal.shortest r).digits
      rw [hzero] at hvalue
      exact hvalue.symm
    · exact isToken_exponent negative hdigits _

/-! ## Values of integers -/

theorem absorb_of_le {ds : List Char} {n : Nat} (h : Nat.ofDigitChars 10 ds n ≤ maxSignificand) :
    absorb n ds = (Nat.ofDigitChars 10 ds n, ds.length) := by
  induction ds generalizing n with
  | nil => rfl
  | cons c ds ih =>
    rw [Nat.ofDigitChars_cons, Nat.mul_comm] at h
    have hnext : n * 10 + (c.toNat - '0'.toNat) ≤ maxSignificand := by
      refine Nat.le_trans ?_ h
      rw [Nat.ofDigitChars_eq_ofDigitChars_zero]
      exact Nat.le_trans (Nat.le_mul_of_pos_left _ (Nat.pow_pos (by decide))) (Nat.le_add_right _ _)
    rw [absorb, if_pos hnext, ih h, Nat.ofDigitChars_cons, Nat.mul_comm 10 n]
    rfl

theorem absorb_le {ds : List Char} {n : Nat} (h : n ≤ maxSignificand) : (absorb n ds).1 ≤ maxSignificand := by
  induction ds generalizing n with
  | nil => exact h
  | cons c ds ih =>
    rw [absorb]
    simp only
    split
    · rename_i hnext
      exact ih hnext
    · exact h

/-- An integer that a number may be: signed or not, of 64 bits. -/
def IsInt64 (n : Int) : Prop := -9223372036854775808 ≤ n ∧ n ≤ 18446744073709551615

/-- An integer of 64 bits is read back from its token. -/
theorem value?_intToken {n : Int} (h : IsInt64 n) : (intToken n).value? = some (.int n) := by
  have hdigits := @Nat.ofDigitChars_ten_toDigits n.natAbs
  have habsorb : absorb 0 (Nat.toDigits 10 n.natAbs) = (n.natAbs, (Nat.toDigits 10 n.natAbs).length) := by
    have hle := @absorb_of_le (Nat.toDigits 10 n.natAbs) 0
    rw [hdigits] at hle
    refine hle ?_
    have hlow := h.1
    have hhigh := h.2
    simp only [maxSignificand]
    omega
  have hlow := h.1
  unfold Numeral.value?
  simp only [intToken, habsorb, Nat.sub_self, Option.isNone_none, BEq.rfl, Bool.and_self, if_true]
  by_cases hn : n < 0
  · rw [if_pos (decide_eq_true hn), if_pos (by omega), show -(n.natAbs : Int) = n by omega]
  · rw [if_neg (by simpa using hn), show (n.natAbs : Int) = n by omega]

theorem isInt64_of_value? {t : Numeral} {n : Int} (h : t.value? = some (.int n)) : IsInt64 n := by
  have hwhole := @absorb_le t.whole 0 (Nat.zero_le _)
  unfold Numeral.value? at h
  generalize hp : absorb 0 t.whole = p at h hwhole
  obtain ⟨whole, taken⟩ := p
  have hle : whole ≤ 18446744073709551615 := hwhole
  simp only at h
  split at h
  · split at h
    · split at h
      · rename_i hrange
        cases h
        exact ⟨by omega, by omega⟩
      · cases h
    · cases h
      exact ⟨by omega, by omega⟩
  · generalize hq : absorb whole (t.fraction.getD []) = q at h
    obtain ⟨significand, places⟩ := q
    simp only at h
    split at h
    · obtain ⟨d, -, hd⟩ := Option.map_eq_some_iff.mp h
      cases hd
    · split at h
      · split at h <;> cases h
      · obtain ⟨d, -, hd⟩ := Option.map_eq_some_iff.mp h
        cases hd

end Handout.Json
