/-
  Handout.Proofs.Text.Hex — hexadecimal digits that are written are read as the number, and
  a character is the one that its code point names.
-/

import Handout.Text.Hex

namespace Handout.Text.Hex

theorem digit?_digitChar : ∀ d < 16, digit? (Nat.digitChar d) = some d := by decide

theorem charOfCode?_toNat (c : Char) : charOfCode? c.toNat = some c := by
  have hvalid : c.toNat.isValidChar := c.valid
  rw [charOfCode?, dif_pos hvalid]
  rfl

theorem number?_digits_four {n : Nat} (h : n < 0x10000) : number? (digits 4 n) = some n := by
  have hdigit : ∀ m, digit? (Nat.digitChar (m % 16)) = some (m % 16) :=
    fun m => digit?_digitChar _ (Nat.mod_lt m (by decide))
  have hdigits : digits 4 n = [Nat.digitChar (n / 16 / 16 / 16 % 16), Nat.digitChar (n / 16 / 16 % 16),
      Nat.digitChar (n / 16 % 16), Nat.digitChar (n % 16)] := rfl
  simp [hdigits, number?, List.mapM_cons, hdigit]
  omega

end Handout.Text.Hex
