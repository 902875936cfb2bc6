/-
  Handout.Proofs.Literal.Text — a text that is quoted is read again.

  Every character is read from what is written for it, whatever follows
  (`textBody_quoteChar`): as itself, from a backslash and a letter, or from a hexadecimal
  escape, which only control characters have. So the body of a quoted text is the text
  (`textBody_quoted`), and what may follow a value does not go on with it.
-/

import Handout.Proofs.Literal.Number
import Handout.Proofs.Text.Hex

namespace Handout.Literal

/-! ## Escapes -/

theorem hexDigits_digits {n : Nat} (hn : n < 256) (s : List Char) :
    hexDigits 0 2 (Text.Hex.digits 2 n ++ s) = .ok (n, s) := by
  have hhigh := Text.Hex.digit?_digitChar (n / 16 % 16) (Nat.mod_lt _ (by decide))
  have hlow := Text.Hex.digit?_digitChar (n % 16) (Nat.mod_lt _ (by decide))
  have hvalue : (0 * 16 + n / 16 % 16) * 16 + n % 16 = n := by omega
  show hexDigits 0 2 (Nat.digitChar (n / 16 % 16) :: Nat.digitChar (n % 16) :: s) = _
  simp only [hexDigits, hhigh, hlow, hvalue]

theorem hexChar_digits {c : Char} (hc : c.toNat < 256) (s : List Char) :
    hexChar 2 (Text.Hex.digits 2 c.toNat ++ s) = .ok (c, s) := by
  simp only [hexChar, hexDigits_digits hc, bind, Except.bind, Text.Hex.charOfCode?_toNat]

/-! ## Bodies -/

section

variable {s cs rest : List Char}

theorem textBody_plain {c : Char} (hline : c ≠ '\n') (hquote : c ≠ '\'') (hescape : c ≠ '\\')
    (h : textBody '\'' s = .ok (cs, rest)) : textBody '\'' (c :: s) = .ok (c :: cs, rest) := by
  rw [textBody.eq_def]
  simp only [hline, hquote, hescape, if_false, h, bind, Except.bind]

theorem textBody_escape {e : Char} (hwidth : hexWidth? e = none) (h : textBody '\'' s = .ok (cs, rest)) :
    textBody '\'' ('\\' :: e :: s) = .ok (simpleEscape e ++ cs, rest) := by
  rw [textBody]
  simp [hwidth, h, bind, Except.bind]

theorem textBody_hex {c : Char} (hc : c.toNat < 256) (h : textBody '\'' s = .ok (cs, rest)) :
    textBody '\'' ('\\' :: 'x' :: (Text.Hex.digits 2 c.toNat ++ s)) = .ok (c :: cs, rest) := by
  have hwidth : hexWidth? 'x' = some 2 := rfl
  have hchar := hexChar_digits hc s
  rw [textBody, if_neg (by decide), if_neg (by decide), if_pos rfl]
  simp only [hwidth]
  split
  · rename_i he
    rw [hchar] at he
    cases he
  · rename_i he
    rw [hchar] at he
    cases he
    simp only [h, bind, Except.bind]

theorem textBody_quoteChar (c : Char) (h : textBody '\'' s = .ok (cs, rest)) :
    textBody '\'' (quoteChar c ++ s) = .ok (c :: cs, rest) := by
  unfold quoteChar
  split
  · exact textBody_escape rfl h
  · exact textBody_escape rfl h
  · exact textBody_escape rfl h
  · exact textBody_escape rfl h
  · exact textBody_escape rfl h
  · rename_i hescape hquote hline hreturn htab
    split
    · rename_i hcontrol
      exact textBody_hex (by omega) h
    · exact textBody_plain hline hquote hescape h

end

/-- The body of a quoted text is the text. -/
theorem textBody_quoted (cs rest : List Char) : textBody '\'' (cs.flatMap quoteChar ++ '\'' :: rest) = .ok (cs, rest) := by
  induction cs with
  | nil =>
    rw [List.flatMap_nil, List.nil_append, textBody.eq_def]
    simp
  | cons c cs ih =>
    rw [List.flatMap_cons, List.append_assoc]
    exact textBody_quoteChar c ih

end Handout.Literal
