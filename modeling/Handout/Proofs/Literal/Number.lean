/-
  Handout.Proofs.Literal.Number — a number that is written is read again, up to what
  follows it and no further.

  What may follow a value in a written literal ends a number (`Follows`). An int is a
  run of digits, and a finite float is always written with a point (`writeFloat_pointed`),
  so the one is never read as the other. Both may have a minus in front.
-/

import Handout.Literal.Parser
import Handout.Literal.Printer
import Handout.Proofs.Number.Text

namespace Handout.Literal

open Decimal (IsDigits Pointed sign ne_of_isDigit writeInt_eq)

/-- What comes after a value in a written literal: nothing, the end of the last line, the comma
    after an item, or the colon after a key. -/
inductive Follows : List Char → Prop
  | nothing : Follows []
  | lineEnd : Follows ['\n']
  | comma (r : List Char) : Follows (',' :: r)
  | colon (r : List Char) : Follows (':' :: r)

/-- A reader has answered `v` and left `rest`. -/
def Took {α : Type} {s : List Char} (x : Except Failure (Parsed s α)) (v : α) (rest : List Char) : Prop :=
  ∃ h, x = .ok ⟨v, rest, h⟩

/-! ## Runs -/

theorem scanRun_digit {c : Char} (h : c.isDigit = true) (s : List Char) :
    scanRun (c :: s) = ⟨c :: (scanRun s).text, (scanRun s).isFloat, (scanRun s).rest⟩ := by
  have hmark : ¬ (c = 'e' ∨ c = 'E') := by
    rintro (rfl | rfl) <;> exact absurd h (by decide)
  cases s with
  | nil => simp [scanRun, h]
  | cons d r =>
    rw [scanRun]
    simp only [hmark, false_and, if_false, h, if_true]

theorem scanRun_point (s : List Char) : scanRun ('.' :: s) = ⟨'.' :: (scanRun s).text, true, (scanRun s).rest⟩ := by
  have hdigit : ('.' : Char).isDigit = false := by decide
  cases s with
  | nil => simp [scanRun, hdigit]
  | cons d r =>
    rw [scanRun]
    simp [hdigit]

theorem scanRun_of_follows {s : List Char} (h : Follows s) : scanRun s = ⟨[], false, s⟩ := by
  cases h with
  | nothing => rfl
  | lineEnd => rfl
  | comma r => cases r <;> simp [scanRun]
  | colon r => cases r <;> simp [scanRun]

theorem scanRun_digits {ds : List Char} (h : IsDigits ds) (s : List Char) :
    scanRun (ds ++ s) = ⟨ds ++ (scanRun s).text, (scanRun s).isFloat, (scanRun s).rest⟩ := by
  induction ds with
  | nil => rfl
  | cons c ds ih =>
    obtain ⟨hc, hds⟩ := List.forall_mem_cons.mp h
    rw [List.cons_append, scanRun_digit hc, ih hds]
    rfl

theorem scanRun_whole {ds rest : List Char} (h : IsDigits ds) (hrest : Follows rest) :
    scanRun (ds ++ rest) = ⟨ds, false, rest⟩ := by
  rw [scanRun_digits h, scanRun_of_follows hrest, List.append_nil]

theorem scanRun_pointed {cs whole part rest : List Char} (h : Pointed cs whole part) (hrest : Follows rest) :
    scanRun (cs ++ rest) = ⟨cs, true, rest⟩ := by
  obtain ⟨rfl, hwhole, hpart, -⟩ := h
  rw [List.append_assoc, List.cons_append, scanRun_digits hwhole, scanRun_point, scanRun_whole hpart hrest]

/-! ## Numbers -/

theorem number_minus {s text rest : List Char} {isFloat : Bool} {v : Literal} (hrun : scanRun s = ⟨text, isFloat, rest⟩)
    (hv : ofRun ('-' :: text) isFloat = some v) : Took (number '-' s) v rest := by
  have hshorter : rest.length < ('-' :: s).length := by
    have hlength := length_scanRun s
    rw [hrun] at hlength
    exact Nat.lt_succ_of_le hlength
  refine ⟨hshorter, ?_⟩
  simp [number, hrun, hv]

theorem number_digit {c : Char} {s text rest : List Char} {isFloat : Bool} {v : Literal} (hc : c.isDigit = true)
    (hrun : scanRun (c :: s) = ⟨text, isFloat, rest⟩) (hv : ofRun text isFloat = some v) :
    Took (number c s) v rest := by
  have hshorter : rest.length < (c :: s).length := by
    have hlength := length_scanRun_cons (Or.inl hc) s
    rw [hrun] at hlength
    exact Nat.lt_succ_of_le hlength
  have hsign : ¬ (c = '-' ∨ c = '+') := by
    rintro (rfl | rfl) <;> exact absurd hc (by decide)
  refine ⟨hshorter, ?_⟩
  unfold number
  rw [if_neg hsign, dif_pos (Or.inl hc)]
  simp only [hrun, hv]

/-- A text that is read as a number, and its value, whatever follows. -/
def IsNumber (cs : List Char) (v : Literal) : Prop :=
  ∀ rest, Follows rest → ∃ c r, cs ++ rest = c :: r ∧ (c = '-' ∨ c.isDigit = true) ∧ Took (number c r) v rest

/-- A run that starts with a digit is a number, with or without a sign. -/
theorem isNumber_signed {body : List Char} {isFloat negative : Bool} {v : Literal} (hhead : ∃ c r, body = c :: r ∧ c.isDigit)
    (hrun : ∀ rest, Follows rest → scanRun (body ++ rest) = ⟨body, isFloat, rest⟩)
    (hv : ofRun (sign negative ++ body) isFloat = some v) : IsNumber (sign negative ++ body) v := by
  intro rest hrest
  obtain ⟨c, r, rfl, hc⟩ := hhead
  cases negative with
  | true => exact ⟨'-', c :: r ++ rest, rfl, Or.inl rfl, number_minus (hrun rest hrest) hv⟩
  | false => exact ⟨c, r ++ rest, rfl, Or.inr hc, number_digit hc (hrun rest hrest) hv⟩

/-! ## Ints -/

theorem head_toDigits (n : Nat) : ∃ c r, Nat.toDigits 10 n = c :: r ∧ c.isDigit := by
  cases hds : Nat.toDigits 10 n with
  | nil => exact absurd hds Nat.toDigits_ne_nil
  | cons c r => exact ⟨c, r, rfl, Decimal.isDigits_toDigits n c (by rw [hds]; exact List.mem_cons_self ..)⟩

theorem intOfText?_writeInt {n : Int} (hn : isIntRange n = true) :
    intOfText? (Decimal.writeInt n) = some (Int64.ofInt n) := by
  obtain ⟨c, r, hds, hc⟩ := head_toDigits n.natAbs
  have hall : (Nat.toDigits 10 n.natAbs).all Char.isDigit = true :=
    List.all_eq_true.mpr (Decimal.isDigits_toDigits n.natAbs)
  have hread : Nat.ofDigitChars 10 (Nat.toDigits 10 n.natAbs) 0 = n.natAbs := Nat.ofDigitChars_ten_toDigits
  have hminus : c ≠ '-' := ne_of_isDigit hc rfl
  have hplus : c ≠ '+' := ne_of_isDigit hc rfl
  rw [hds] at hall hread
  rw [writeInt_eq, hds]
  by_cases hneg : n < 0
  · have hvalue : -(n.natAbs : Int) = n := by omega
    have hsign : sign (n < 0) = ['-'] := by simp [sign, hneg]
    rw [hsign, List.singleton_append, intOfText?, hread, if_pos ⟨List.cons_ne_nil c r, hall⟩]
    simp only [if_true, hvalue, hn]
  · have hvalue : (n.natAbs : Int) = n := by omega
    simp [intOfText?, sign, hneg, hminus, hplus, hall, hread, hvalue, hn]

theorem isNumber_writeInt (n : Int64) : IsNumber (Decimal.writeInt n.toInt) (.int n) := by
  have hrange : isIntRange n.toInt = true := by
    have hlow := n.le_toInt
    have hhigh := n.toInt_lt
    simp only [isIntRange, Bool.and_eq_true, decide_eq_true_eq]
    omega
  have hv : ofRun (Decimal.writeInt n.toInt) false = some (.int n) := by
    simp [ofRun, intOfText?_writeInt hrange]
  rw [writeInt_eq] at hv ⊢
  exact isNumber_signed (head_toDigits _) (fun rest hrest => scanRun_whole (Decimal.isDigits_toDigits _) hrest) hv

/-! ## Floats -/

theorem isWhole_iff {negative : Bool} {r : Nat} (hr : r < Double.infinityRank) :
    (Double.signed negative r).isWhole = true ↔ Double.units r % Double.unitsOfOne = 0 := by
  simp [Double.isWhole, hr]

/-- A whole number shows one place, which is zero. -/
theorem pointed_whole {r : Nat} (hr : r < Double.infinityRank) (hwhole : Double.units r % Double.unitsOfOne = 0) :
    let ds := Nat.toDigits 10 (Double.units r / Double.unitsOfOne)
    Pointed (Decimal.writePositional true ds 0) ds ['0'] ∧
      Decimal.toRank ⟨Nat.ofDigitChars 10 (ds ++ ['0']) 0, -((1 : Nat) : Int)⟩ = r := by
  intro ds
  refine ⟨⟨by simp [Decimal.writePositional, Decimal.zeros], Decimal.isDigits_toDigits _, Decimal.isDigits_zeros 1,
    Nat.toDigits_ne_nil⟩, ?_⟩
  have hvalue : Nat.ofDigitChars 10 (ds ++ ['0']) 0 = 10 * (Double.units r / Double.unitsOfOne) := by
    rw [Nat.ofDigitChars_append, Nat.ofDigitChars_ten_toDigits]
    simp [Nat.ofDigitChars_cons]
  have hunits : Double.units r / Double.unitsOfOne * Double.unitsOfOne = Double.units r :=
    Nat.div_mul_cancel (Nat.dvd_of_mod_eq_zero hwhole)
  rw [hvalue]
  refine Decimal.toRank_of_units hr (by decide) (by decide) ?_
  rw [Nat.mul_assoc, hunits, Nat.mul_comm]

/-- Any other number has a shortest decimal with places, as decimals without are whole. -/
theorem pointed_shortest {r : Nat} (hr : r < Double.infinityRank) (hwhole : Double.units r % Double.unitsOfOne ≠ 0) :
    ∃ whole part, Pointed (Double.plainLayout.write (Decimal.shortest r)) whole part ∧
      Decimal.toRank ⟨Nat.ofDigitChars 10 (whole ++ part) 0, -(part.length : Int)⟩ = r := by
  have hrank := Decimal.toRank_shortest hr
  have hneg : (Decimal.shortest r).exponent < 0 := by
    by_contra hpos
    have hw := @Decimal.whole_of_toRank (Decimal.shortest r) (by rw [hrank]; exact hr) (by omega)
    rw [hrank] at hw
    exact hwhole hw
  obtain ⟨whole, part, hpointed, hlength, hdigits⟩ :=
    Decimal.writePositional_of_neg (Decimal.isDigits_toDigits (Decimal.shortest r).digits) hneg false
  refine ⟨whole, part, hpointed, ?_⟩
  rw [hlength, hdigits, Nat.ofDigitChars_ten_toDigits, Int.neg_neg]
  exact hrank

theorem writeFloat_eq (negative : Bool) {r : Nat} (hr : r < Double.infinityRank) :
    writeFloat (.signed negative r) = sign negative ++
      if (Double.signed negative r).isWhole then
        Decimal.writePositional true (Nat.toDigits 10 (Double.units r / Double.unitsOfOne)) 0
      else Double.plainLayout.write (Decimal.shortest r) :=
  congrArg (sign negative ++ ·) (if_neg (Nat.not_le.mpr hr))

/-- A finite float is written with a point, and its decimal rounds to its rank. -/
theorem writeFloat_pointed (negative : Bool) {r : Nat} (hr : r < Double.infinityRank) :
    ∃ body whole part, writeFloat (.signed negative r) = sign negative ++ body ∧ Pointed body whole part ∧
      Decimal.toRank ⟨Nat.ofDigitChars 10 (whole ++ part) 0, -(part.length : Int)⟩ = r := by
  rw [writeFloat_eq negative hr]
  by_cases hwhole : Double.units r % Double.unitsOfOne = 0
  · obtain ⟨hpointed, hrank⟩ := pointed_whole hr hwhole
    exact ⟨_, _, _, congrArg _ (if_pos ((isWhole_iff hr).mpr hwhole)), hpointed, hrank⟩
  · obtain ⟨whole, part, hpointed, hrank⟩ := pointed_shortest hr hwhole
    exact ⟨_, whole, part, congrArg _ (if_neg fun h => hwhole ((isWhole_iff hr).mp h)), hpointed, hrank⟩

/-- Whatever is written for a finite float reads back as that float. -/
theorem isNumber_writeFloat {d : Double} (h : d.isFinite = true) : IsNumber (writeFloat d) (.float d) := by
  cases d with
  | nan => cases h
  | signed negative r =>
    have hr : r < Double.infinityRank := by
      simpa [Double.isFinite, Double.isNaN, Double.isInfinite] using h
    obtain ⟨body, whole, part, hwrite, hbody, hrank⟩ := writeFloat_pointed negative hr
    obtain ⟨c, t, rfl⟩ := List.exists_cons_of_ne_nil hbody.nonempty
    have hc : c.isDigit = true := hbody.isWhole c (List.mem_cons_self ..)
    have hhead : body = c :: (t ++ '.' :: part) := hbody.text
    have hminus : c ≠ '-' := ne_of_isDigit hc rfl
    have hplus : c ≠ '+' := ne_of_isDigit hc rfl
    have hread : Double.ofText? (sign negative ++ body) = some (.signed negative r) := by
      rw [Decimal.ofText?_signed hhead hminus hplus, Decimal.ofText?_pointed hbody, Option.map_some, hrank]
    have hv : ofRun (sign negative ++ body) true = some (.float (.signed negative r)) := by
      simp [ofRun, hread]
    rw [hwrite]
    exact isNumber_signed ⟨c, _, hhead, hc⟩ (fun rest hrest => scanRun_pointed hbody hrest) hv

end Handout.Literal
