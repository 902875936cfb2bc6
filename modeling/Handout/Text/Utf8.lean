/-
  Handout.Text.Utf8 — bytes read as text even where they make up none. Bytes that cannot
  begin or continue a character are taken together as far as they could still have become
  one, and a mark stands for them.
-/

namespace Handout.Text.Utf8

/-- For a byte that begins a character of several: how many follow, and what the first
    of those may be. -/
def following? (b : UInt8) : Option (Nat × UInt8 × UInt8) :=
  if 0xc2 ≤ b ∧ b ≤ 0xdf then some (1, 0x80, 0xbf)
  else if b = 0xe0 then some (2, 0xa0, 0xbf)
  else if b = 0xed then some (2, 0x80, 0x9f)
  else if 0xe1 ≤ b ∧ b ≤ 0xef then some (2, 0x80, 0xbf)
  else if b = 0xf0 then some (3, 0x90, 0xbf)
  else if 0xf1 ≤ b ∧ b ≤ 0xf3 then some (3, 0x80, 0xbf)
  else if b = 0xf4 then some (3, 0x80, 0x8f)
  else none

/-- How many bytes of a character are there after its first. -/
def present (low high : UInt8) : (wanted : Nat) → List UInt8 → Nat
  | wanted + 1, b :: r => if low ≤ b ∧ b ≤ high then present 0x80 0xbf wanted r + 1 else 0
  | _, _ => 0

/-- How many bytes go with one that begins no whole character. -/
def broken (b : UInt8) (rest : List UInt8) : Nat :=
  match following? b with
  | some (wanted, low, high) => present low high wanted rest
  | none => 0

def mark : Char := '\ufffd'

/-- The character that bytes begin with; none has more than four. -/
def first? (bs : List UInt8) : Option Char := (bs.take 4).toByteArray.utf8DecodeChar? 0

/-- The characters that bytes make up. The first `skip` bytes have been read already. -/
def decode : (skip : Nat) → List UInt8 → List Char
  | _, [] => []
  | skip + 1, _ :: r => decode skip r
  | 0, b :: r =>
    match first? (b :: r) with
    | some c => c :: decode (c.utf8Size - 1) r
    | none => mark :: decode (broken b r) r

/-- The text of bytes. -/
def lossy (bs : ByteArray) : String := String.ofList (decode 0 bs.data.toList)

end Handout.Text.Utf8
