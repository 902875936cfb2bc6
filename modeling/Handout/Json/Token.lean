/-
  Handout.Json.Token — the shape of a JSON text before its values are judged. A value that
  is passed over has to be well formed only; whether a number is within the doubles,
  whether surrogate escapes pair up and how deep values nest is settled when a value
  is read (`Raw.toJson`).
-/

import Handout.Json.Numeral
import Handout.Text.Hex
import Handout.Text.Parsed

namespace Handout.Json

/-! ## Texts -/

/-- A piece of a quoted text: a character, or the 16-bit unit of a `\u` escape. -/
inductive Piece where
  | char (c : Char)
  | unit (n : Nat)
  deriving DecidableEq, Repr, Inhabited

def isLead (n : Nat) : Bool := 0xd800 ≤ n && n ≤ 0xdbff
def isTrail (n : Nat) : Bool := 0xdc00 ≤ n && n ≤ 0xdfff

/-- The text of some pieces, `none` when a surrogate stands alone. -/
def ofPieces : List Piece → Option (List Char)
  | [] => some []
  | .char c :: r => (ofPieces r).map (c :: ·)
  | .unit n :: r =>
    if isLead n then
      match r with
      | .unit m :: r' =>
        if isTrail m then
          (ofPieces r').map (Char.ofNat (0x10000 + (n - 0xd800) * 0x400 + (m - 0xdc00)) :: ·)
        else none
      | _ => none
    else if isTrail n then none
    else (ofPieces r).map (Char.ofNat n :: ·)

/-- What an escape letter other than `u` stands for. -/
def shortEscape? (c : Char) : Option Char :=
  match c with
  | '"' => some '"'
  | '\\' => some '\\'
  | '/' => some '/'
  | 'b' => some '\x08'
  | 'f' => some '\x0c'
  | 'n' => some '\n'
  | 'r' => some '\r'
  | 't' => some '\t'
  | _ => none

/-- The pieces of a quoted text after its opening quote, and what follows the closing one. -/
def pieces : List Char → Option (List Piece × List Char)
  | [] => none
  | '"' :: r => some ([], r)
  | '\\' :: 'u' :: a :: b :: c :: d :: r => do
    let n ← Text.Hex.number? [a, b, c, d]
    let (ps, rest) ← pieces r
    return (.unit n :: ps, rest)
  | '\\' :: e :: r => do
    let c ← shortEscape? e
    let (ps, rest) ← pieces r
    return (.char c :: ps, rest)
  | c :: r =>
    if c = '\\' ∨ c.toNat < 0x20 then none
    else do
      let (ps, rest) ← pieces r
      return (.char c :: ps, rest)

theorem length_pieces {s : List Char} {v : List Piece × List Char} (h : pieces s = some v) :
    v.2.length < s.length := by
  fun_induction pieces s generalizing v with
  | case1 => cases h
  | case2 r => cases h; simp
  | case3 a b c d r ih =>
    simp only [Option.bind_eq_bind, Option.bind_eq_some_iff, pure, Option.some.injEq] at h
    obtain ⟨_, -, w, hw, rfl⟩ := h
    have := ih hw
    simp only [List.length_cons]
    omega
  | case4 e r _ ih =>
    simp only [Option.bind_eq_bind, Option.bind_eq_some_iff, pure, Option.some.injEq] at h
    obtain ⟨_, -, w, hw, rfl⟩ := h
    have := ih hw
    simp only [List.length_cons]
    omega
  | case5 => cases h
  | case6 c r _ _ _ _ ih =>
    simp only [Option.bind_eq_bind, Option.bind_eq_some_iff, pure, Option.some.injEq] at h
    obtain ⟨w, hw, rfl⟩ := h
    have := ih hw
    simp only [List.length_cons]
    omega

/-! ## Numbers -/

/-- The digits before the point: a single zero, or digits that do not begin with one. -/
def wholeDigits? (s : List Char) : Option (List Char × List Char) :=
  match Decimal.spanDigits s with
  | ([], _) => none
  | ('0' :: _ :: _, _) => none
  | (ds, r) => some (ds, r)

/-- A point with at least one digit after it, or nothing. -/
def fraction? : List Char → Option (Option (List Char) × List Char)
  | '.' :: r =>
    match Decimal.spanDigits r with
    | ([], _) => none
    | (ds, r') => some (some ds, r')
  | r => some (none, r)

/-- Whether a minus sign stands here, and what follows the sign if there is one. -/
def takeSign : List Char → Bool × List Char
  | '-' :: r => (true, r)
  | '+' :: r => (false, r)
  | r => (false, r)

/-- An exponent mark with an optional sign and at least one digit, or nothing. -/
def exponent? : List Char → Option (Option (Bool × List Char) × List Char)
  | c :: r =>
    if c = 'e' ∨ c = 'E' then
      match Decimal.spanDigits (takeSign r).2 with
      | ([], _) => none
      | (ds, r') => some (some ((takeSign r).1, ds), r')
    else some (none, c :: r)
  | [] => some (none, [])

/-- A number token and what follows it. -/
def numeral? (s : List Char) : Option (Numeral × List Char) := do
  let (negative, s) := match s with
    | '-' :: r => (true, r)
    | r => (false, r)
  let (whole, s) ← wholeDigits? s
  let (fraction, s) ← fraction? s
  let (exponent, s) ← exponent? s
  return (⟨negative, whole, fraction, exponent⟩, s)

theorem length_spanDigits (s : List Char) : (Decimal.spanDigits s).2.length ≤ s.length :=
  (List.dropWhile_sublist _).length_le

theorem length_wholeDigits {s : List Char} {v : List Char × List Char} (h : wholeDigits? s = some v) :
    v.2.length < s.length := by
  have hs : (Decimal.spanDigits s).1 ++ (Decimal.spanDigits s).2 = s := List.takeWhile_append_dropWhile
  unfold wholeDigits? at h
  split at h
  · cases h
  · cases h
  · rename_i ds r hn _ he
    cases h
    rw [he] at hs
    cases ds with
    | nil => exact absurd rfl hn
    | cons d ds =>
      rw [← hs]
      simp only [List.length_append, List.length_cons]
      omega

theorem length_fraction {s : List Char} {v : Option (List Char) × List Char} (h : fraction? s = some v) :
    v.2.length ≤ s.length := by
  unfold fraction? at h
  split at h
  · rename_i r
    have hr := length_spanDigits r
    split at h
    · cases h
    · rename_i he
      cases h
      rw [he] at hr
      exact Nat.le_succ_of_le hr
  · cases h
    simp

theorem length_takeSign (s : List Char) : (takeSign s).2.length ≤ s.length := by
  unfold takeSign
  split <;> simp

theorem length_exponent {s : List Char} {v : Option (Bool × List Char) × List Char} (h : exponent? s = some v) :
    v.2.length ≤ s.length := by
  unfold exponent? at h
  split at h
  · rename_i c r
    have hr := Nat.le_trans (length_spanDigits (takeSign r).2) (length_takeSign r)
    split at h
    · split at h
      · cases h
      · rename_i he
        cases h
        rw [he] at hr
        exact Nat.le_succ_of_le hr
    · cases h
      simp
  · cases h
    simp

theorem length_numeral {s : List Char} {v : Numeral × List Char} (h : numeral? s = some v) :
    v.2.length < s.length := by
  have hd : ∀ {t rest : List Char} {w} (hw : wholeDigits? t = some (w, rest)) (_ : t.length ≤ s.length),
      rest.length < s.length := fun hw ht => Nat.lt_of_lt_of_le (length_wholeDigits hw) ht
  simp only [numeral?, Option.bind_eq_bind, Option.bind_eq_some_iff, pure, Option.some.injEq] at h
  obtain ⟨⟨w, s₁⟩, h₁, ⟨f, s₂⟩, h₂, ⟨e, s₃⟩, h₃, rfl⟩ := h
  have l₂ := length_fraction h₂
  have l₃ := length_exponent h₃
  have l₁ : s₁.length < s.length := by
    refine hd h₁ ?_
    split <;> simp
  simp only at l₂ l₃ ⊢
  omega

/-! ## Values -/

/-- A well-formed value whose numbers and texts are not judged yet. -/
inductive Raw where
  | null
  | bool (b : Bool)
  | number (t : Numeral)
  | text (ps : List Piece)
  | array (items : List Raw)
  | object (members : List (List Piece × Raw))
  deriving Inhabited

/-- JSON white space. -/
def isSpace (c : Char) : Bool := c == ' ' || c == '\n' || c == '\t' || c == '\r'

def skipSpace (s : List Char) : List Char := s.dropWhile isSpace

theorem length_skipSpace (s : List Char) : (skipSpace s).length ≤ s.length :=
  (List.dropWhile_sublist _).length_le

/-- What follows `word` when the text begins with it. -/
def afterWord? (word s : List Char) : Option (List Char) :=
  if word.isPrefixOf s then some (s.drop word.length) else none

theorem length_afterWord {word s rest : List Char} (h : afterWord? word s = some rest) :
    rest.length ≤ s.length := by
  unfold afterWord? at h
  split at h
  · cases h
    simp
  · cases h

/-- The value `v` when the text goes on with `word`. -/
def constant (v : Raw) (word : List Char) (c : Char) (r : List Char) : Option (Parsed (c :: r) Raw) :=
  match h : afterWord? word r with
  | none => none
  | some rest => some ⟨v, rest, Nat.lt_succ_of_le (length_afterWord h)⟩

/-- A value that is a single token, which begins with `c`. -/
def scalar (c : Char) (r : List Char) : Option (Parsed (c :: r) Raw) :=
  if c = 'n' then constant .null "ull".toList c r
  else if c = 't' then constant (.bool true) "rue".toList c r
  else if c = 'f' then constant (.bool false) "alse".toList c r
  else if c = '"' then
    match h : pieces r with
    | none => none
    | some (ps, rest) => some ⟨.text ps, rest, Nat.lt_succ_of_lt (length_pieces h)⟩
  else
    match h : numeral? (c :: r) with
    | none => none
    | some (t, rest) => some ⟨.number t, rest, length_numeral h⟩

mutual

/-- One value, with the white space before it. -/
def value (s : List Char) : Option (Parsed s Raw) :=
  match ht : skipSpace s with
  | [] => none
  | c :: r =>
    have hr := length_lt_of_cons ht (length_skipSpace s)
    if c = '[' then do
      let p ← items r
      some ⟨.array p.value, p.rest, Nat.lt_trans p.shorter hr⟩
    else if c = '\x7b' then do
      let p ← members r
      some ⟨.object p.value, p.rest, Nat.lt_trans p.shorter hr⟩
    else do
      let p ← scalar c r
      some ⟨p.value, p.rest, Nat.lt_of_lt_of_le p.shorter hr⟩
termination_by (s.length, 0)

/-- What follows an opening bracket: nothing, or values with commas between them. -/
def items (s : List Char) : Option (Parsed s (List Raw)) :=
  match ht : skipSpace s with
  | [] => none
  | c :: r =>
    if c = ']' then some ⟨[], r, length_lt_of_cons ht (length_skipSpace s)⟩
    else moreItems s
termination_by (s.length, 2)

/-- At least one value, up to the closing bracket. -/
def moreItems (s : List Char) : Option (Parsed s (List Raw)) := do
  let v ← value s
  match ha' : skipSpace v.rest with
  | [] => none
  | d :: r =>
    have hr := length_lt_of_cons ha' (Nat.le_trans (length_skipSpace v.rest) (Nat.le_of_lt v.shorter))
    if d = ']' then some ⟨[v.value], r, hr⟩
    else if d = ',' then do
      let p ← moreItems r
      some ⟨v.value :: p.value, p.rest, Nat.lt_trans p.shorter hr⟩
    else none
termination_by (s.length, 1)

/-- What follows an opening brace: nothing, or members with commas between them. -/
def members (s : List Char) : Option (Parsed s (List (List Piece × Raw))) :=
  match ht : skipSpace s with
  | [] => none
  | c :: r =>
    if c = '\x7d' then some ⟨[], r, length_lt_of_cons ht (length_skipSpace s)⟩
    else moreMembers s
termination_by (s.length, 2)

/-- At least one member, up to the closing brace. -/
def moreMembers (s : List Char) : Option (Parsed s (List (List Piece × Raw))) :=
  match ht : skipSpace s with
  | '"' :: r =>
    match hk : pieces r with
    | none => none
    | some (name, r₁) =>
      have h₁ := Nat.lt_trans (length_pieces hk) (length_lt_of_cons ht (length_skipSpace s))
      match hc' : skipSpace r₁ with
      | [] => none
      | c :: r₂ =>
        have h₂ := length_lt_of_cons hc' (Nat.le_trans (length_skipSpace r₁) (Nat.le_of_lt h₁))
        if c = ':' then do
          let v ← value r₂
          match ha' : skipSpace v.rest with
          | [] => none
          | d :: r₃ =>
            have h₃ := Nat.lt_trans (length_lt_of_cons ha'
              (Nat.le_trans (length_skipSpace v.rest) (Nat.le_of_lt v.shorter))) h₂
            if d = '\x7d' then some ⟨[(name, v.value)], r₃, h₃⟩
            else if d = ',' then do
              let p ← moreMembers r₃
              some ⟨(name, v.value) :: p.value, p.rest, Nat.lt_trans p.shorter h₃⟩
            else none
        else none
  | _ => none
termination_by (s.length, 1)

end

/-- Reads a value that is the whole text. -/
def Raw.parse? (s : List Char) : Option Raw := do
  let p ← value s
  if skipSpace p.rest = [] then some p.value else none

end Handout.Json
