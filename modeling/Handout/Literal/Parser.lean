/-
  Handout.Literal.Parser — reading a literal from text. Accepted beyond the written form:
  either quote style, adjacent texts joined, groups in parentheses, tuples (read as
  lists), trailing commas, `#` comments and a backslash at the end of a line.

  Each reader answers a value and the rest of the text; the rest is shorter than the
  text (`Parsed.shorter`), which is what ends the recursion. A refusal carries the
  rest at which it was noticed, from which its line is counted.
-/

import Handout.Literal.Basic
import Handout.Text.Blank
import Handout.Text.Hex
import Handout.Text.Parsed

namespace Handout.Literal

/-! ## Refusals -/

/-- Why a text is not a literal. -/
inductive Cause where
  | unexpected (c : Char)
  | unexpectedEnd
  | unsupportedName (name : List Char)
  | expected (wanted : Char) (found : Option Char)
  | separator (close : Char) (found : Char)
  | keyNotText (found : Literal)
  | unterminated (what : String)
  | badHex
  | badCharacter
  | badNumber (text : List Char)
  | trailing (c : Char)
  | target (name : List Char)
  deriving Inhabited

/-- A refusal, with the text that was still ahead. -/
structure Failure where
  rest : List Char
  cause : Cause
  deriving Inhabited

namespace Cause

def ticked (cs : List Char) : List Char := '\x60' :: cs ++ ['\x60']

def message : Cause → List Char
  | .unexpected c => "unexpected ".toList ++ ticked [c]
  | .unexpectedEnd => "unexpected end of input".toList
  | .unsupportedName n => "unsupported name ".toList ++ ticked n
  | .expected w (some c) => "expected ".toList ++ ticked [w] ++ ", found ".toList ++ ticked [c]
  | .expected w none => "expected ".toList ++ ticked [w] ++ ", found end of input".toList
  | .separator w c =>
    "expected ".toList ++ ticked [','] ++ " or ".toList ++ ticked [w] ++ ", found ".toList ++ ticked [c]
  | .keyNotText v => "dict keys must be strings, found ".toList ++ v.inspect
  | .unterminated what => "unterminated ".toList ++ what.toList
  | .badHex => "invalid hex escape".toList
  | .badCharacter => "escape is not a valid character".toList
  | .badNumber t => "invalid number ".toList ++ ticked t
  | .trailing c => "unexpected ".toList ++ ticked [c] ++ " after literal".toList
  | .target n => "expected assignment to ".toList ++ ticked "test".toList ++ ", found ".toList ++ ticked n

end Cause

/-- The line of `text` on which `rest` begins, from 1. -/
def lineAt (text rest : List Char) : Nat := text.count '\n' - rest.count '\n' + 1

/-- The message of a refusal of `text`; a wrong target has no line. -/
def Failure.message (text : List Char) (f : Failure) : String :=
  match f.cause with
  | .target _ => String.ofList f.cause.message
  | _ => String.ofList ("line ".toList ++ Nat.toDigits 10 (lineAt text f.rest) ++ ": ".toList ++ f.cause.message)

/-! ## Trivia -/

/-- Drops white space, comments and escaped line ends; `comment` says whether the text
    starts inside a comment, which ends with its line. -/
def skip : Bool → List Char → List Char
  | _, [] => []
  | true, c :: r => skip (c != '\n') r
  | false, '\\' :: '\n' :: r => skip false r
  | false, c :: r => if Text.isBlank c then skip false r else if c = '#' then skip true r else c :: r

def skipTrivia (s : List Char) : List Char := skip false s

theorem length_skip (comment : Bool) (s : List Char) : (skip comment s).length ≤ s.length := by
  fun_induction skip comment s <;> simp only [List.length_cons, List.length_nil] at * <;> omega

theorem length_skipTrivia (s : List Char) : (skipTrivia s).length ≤ s.length := length_skip false s

/-! ## Names and numbers -/

def isNameChar (c : Char) : Bool := Text.isAlphanumeric c || c == '_'

/-- The name characters at the start of a text, and the rest. -/
def spanName (s : List Char) : List Char × List Char := (s.takeWhile isNameChar, s.dropWhile isNameChar)

/-- A run of number characters without its underscores. -/
structure Run where
  text : List Char
  isFloat : Bool
  rest : List Char

/-- The maximal run of digits, underscores, points and exponent marks, the mark with the
    sign after it. -/
def scanRun : List Char → Run
  | [] => ⟨[], false, []⟩
  | e :: s :: r =>
    if (e = 'e' ∨ e = 'E') ∧ (s = '+' ∨ s = '-') then
      let t := scanRun r
      ⟨e :: s :: t.text, true, t.rest⟩
    else if e.isDigit then
      let t := scanRun (s :: r)
      ⟨e :: t.text, t.isFloat, t.rest⟩
    else if e = '_' then scanRun (s :: r)
    else if e = '.' ∨ e = 'e' ∨ e = 'E' then
      let t := scanRun (s :: r)
      ⟨e :: t.text, true, t.rest⟩
    else ⟨[], false, e :: s :: r⟩
  | [c] =>
    if c.isDigit then ⟨[c], false, []⟩
    else if c = '_' then ⟨[], false, []⟩
    else if c = '.' ∨ c = 'e' ∨ c = 'E' then ⟨[c], true, []⟩
    else ⟨[], false, [c]⟩

theorem length_scanRun (s : List Char) : (scanRun s).rest.length ≤ s.length := by
  fun_induction scanRun s <;> simp only [List.length_cons, List.length_nil] at * <;> grind

/-- A run that starts with a digit or a point takes that character. -/
theorem length_scanRun_cons {c : Char} (h : c.isDigit ∨ c = '.') (r : List Char) :
    (scanRun (c :: r)).rest.length ≤ r.length := by
  have hm : ¬ (c = 'e' ∨ c = 'E') := by
    rintro (rfl | rfl) <;> rcases h with h | h <;> revert h <;> decide
  cases r with
  | nil =>
    unfold scanRun
    rcases h with h | rfl <;> simp_all
  | cons s r =>
    have hs := length_scanRun (s :: r)
    unfold scanRun
    rcases h with h | rfl
    · simp only [hm, false_and, if_false, h, if_true]
      exact hs
    · have : ('.' : Char).isDigit = false := by decide
      simp [this] at hs ⊢
      exact hs

/-- The integers that an int can hold. -/
def isIntRange (n : Int) : Bool := -9223372036854775808 ≤ n && n ≤ 9223372036854775807

/-- The int a signed run of digits spells. -/
def intOfText? (cs : List Char) : Option Int64 :=
  let (negative, ds) := match cs with
    | '-' :: r => (true, r)
    | '+' :: r => (false, r)
    | r => (false, r)
  if ds ≠ [] ∧ ds.all Char.isDigit then
    let n : Int := if negative then -(Nat.ofDigitChars 10 ds 0 : Nat) else (Nat.ofDigitChars 10 ds 0 : Nat)
    if isIntRange n then some (Int64.ofInt n) else none
  else none

/-- The value a run spells: an int when it has no point and no exponent mark. -/
def ofRun (text : List Char) (isFloat : Bool) : Option Literal :=
  if isFloat then (Double.ofText? text).map Literal.float else (intOfText? text).map Literal.int

/-- Reads a number from a sign, a digit or a point. -/
def number (c : Char) (r : List Char) : Except Failure (Parsed (c :: r) Literal) :=
  if c = '-' ∨ c = '+' then
    let run := scanRun r
    match ofRun (c :: run.text) run.isFloat with
    | some v => .ok ⟨v, run.rest, Nat.lt_succ_of_le (length_scanRun r)⟩
    | none => .error ⟨run.rest, .badNumber (c :: run.text)⟩
  else if hd : c.isDigit ∨ c = '.' then
    let run := scanRun (c :: r)
    match ofRun run.text run.isFloat with
    | some v => .ok ⟨v, run.rest, Nat.lt_succ_of_le (length_scanRun_cons hd r)⟩
    | none => .error ⟨run.rest, .badNumber run.text⟩
  else .error ⟨c :: r, .unexpected c⟩

/-! ## Texts -/

/-- Exactly `n` hexadecimal digits, and the rest. -/
def hexDigits (code : Nat) : Nat → List Char → Except Failure (Nat × List Char)
  | 0, s => .ok (code, s)
  | _ + 1, [] => .error ⟨[], .badHex⟩
  | n + 1, c :: r =>
    match Text.Hex.digit? c with
    | some d => hexDigits (code * 16 + d) n r
    | none => .error ⟨r, .badHex⟩

def hexChar (digits : Nat) (s : List Char) : Except Failure (Char × List Char) := do
  let (code, rest) ← hexDigits 0 digits s
  match Text.Hex.charOfCode? code with
  | some c => .ok (c, rest)
  | none => .error ⟨rest, .badCharacter⟩

/-- How many hexadecimal digits follow an escape letter. -/
def hexWidth? (c : Char) : Option Nat :=
  if c = 'x' then some 2 else if c = 'u' then some 4 else if c = 'U' then some 8 else none

/-- What an escape of one character stands for; an unknown one keeps its backslash. -/
def simpleEscape (c : Char) : List Char :=
  match c with
  | '\n' => []
  | '\\' => ['\\']
  | '\'' => ['\'']
  | '"' => ['"']
  | 'n' => ['\n']
  | 'r' => ['\r']
  | 't' => ['\t']
  | '0' => ['\x00']
  | 'a' => ['\x07']
  | 'b' => ['\x08']
  | 'f' => ['\x0c']
  | 'v' => ['\x0b']
  | c => ['\\', c]

theorem length_hexDigits {code n : Nat} {s : List Char} {v : Nat × List Char}
    (h : hexDigits code n s = .ok v) : v.2.length ≤ s.length := by
  fun_induction hexDigits code n s with
  | case1 => cases h; simp
  | case2 => cases h
  | case3 _ _ _ _ _ _ ih =>
    have := ih h
    simp only [List.length_cons]
    omega
  | case4 => cases h

theorem length_hexChar {n : Nat} {s : List Char} {v : Char × List Char}
    (h : hexChar n s = .ok v) : v.2.length ≤ s.length := by
  unfold hexChar at h
  cases hd : hexDigits 0 n s with
  | error e => rw [hd] at h; cases h
  | ok p =>
    have hl := length_hexDigits hd
    rw [hd] at h
    simp only [bind, Except.bind] at h
    split at h
    · cases h; exact hl
    · cases h

/-- The inside of a text after its opening `quote`, and what follows the closing one. -/
def textBody (quote : Char) (s : List Char) : Except Failure (List Char × List Char) :=
  match s with
  | [] => .error ⟨[], .unterminated "string"⟩
  | c :: r =>
    if c = '\n' then .error ⟨r, .unterminated "string"⟩
    else if c = quote then .ok ([], r)
    else if c = '\\' then
      match r with
      | [] => .error ⟨[], .unterminated "escape"⟩
      | e :: r' =>
        match hexWidth? e with
        | none => do
          let (cs, rest) ← textBody quote r'
          .ok (simpleEscape e ++ cs, rest)
        | some n =>
          match h : hexChar n r' with
          | .error f => .error f
          | .ok (d, r'') => do
            have := length_hexChar h
            let (cs, rest) ← textBody quote r''
            .ok (d :: cs, rest)
    else do
      let (cs, rest) ← textBody quote r
      .ok (c :: cs, rest)
termination_by s.length
decreasing_by all_goals (simp_all; try omega)

theorem length_textBody {q : Char} {s : List Char} {v : List Char × List Char}
    (h : textBody q s = .ok v) : v.2.length < s.length := by
  fun_induction textBody q s generalizing v with
  | case1 => cases h
  | case2 => cases h
  | case3 => cases h; simp
  | case4 => cases h
  | case5 e r' _ _ _ ih =>
    cases hb : textBody q r' with
    | error f => simp [hb, bind, Except.bind] at h
    | ok p =>
      have := ih hb
      simp only [hb, bind, Except.bind, Except.ok.injEq] at h
      subst h
      simp only [List.length_cons]
      omega
  | case6 => cases h
  | case7 e r' n _ d r'' _ hl _ _ ih =>
    cases hb : textBody q r'' with
    | error f => simp [hb, bind, Except.bind] at h
    | ok p =>
      have := ih hb
      simp only [hb, bind, Except.bind, Except.ok.injEq] at h
      subst h
      simp only [List.length_cons] at hl ⊢
      omega
  | case8 c r _ _ _ ih =>
    cases hb : textBody q r with
    | error f => simp [hb, bind, Except.bind] at h
    | ok p =>
      have := ih hb
      simp only [hb, bind, Except.bind, Except.ok.injEq] at h
      subst h
      simp only [List.length_cons]
      omega

/-- One or more adjacent texts after the first opening `quote`, joined. Trivia stands between
    them; trivia after the last is left in the rest. -/
def texts (quote : Char) (s : List Char) : Except Failure (Parsed s (List Char)) :=
  match h : textBody quote s with
  | .error f => .error f
  | .ok (cs, rest) =>
    have hl := length_textBody h
    match ht : skipTrivia rest with
    | c :: r =>
      if c = '\'' ∨ c = '"' then
        have hr := length_lt_of_cons ht (Nat.le_trans (length_skipTrivia rest) (Nat.le_of_lt hl))
        match texts c r with
        | .error f => .error f
        | .ok p => .ok ⟨cs ++ p.value, p.rest, Nat.lt_trans p.shorter hr⟩
      else .ok ⟨cs, rest, hl⟩
    | [] => .ok ⟨cs, rest, hl⟩
termination_by s.length

/-! ## Values -/

mutual

/-- One value, with the trivia before it. -/
def value (s : List Char) : Except Failure (Parsed s Literal) :=
  match ht : skipTrivia s with
  | [] => .error ⟨[], .unexpectedEnd⟩
  | c :: r =>
    have hr := length_lt_of_cons ht (length_skipTrivia s)
    if c = '\x7b' then do
      let p ← entries r
      .ok ⟨.dict (Table.ofEntries p.value), p.rest, Nat.lt_trans p.shorter hr⟩
    else if c = '[' then do
      let p ← items ']' r
      .ok ⟨.list p.value, p.rest, Nat.lt_trans p.shorter hr⟩
    else if c = '(' then do
      let p ← group r
      .ok ⟨p.value, p.rest, Nat.lt_trans p.shorter hr⟩
    else if c = '\'' ∨ c = '"' then do
      let p ← texts c r
      .ok ⟨.text (String.ofList p.value), p.rest, Nat.lt_trans p.shorter hr⟩
    else if c = '-' ∨ c = '+' ∨ c = '.' ∨ c.isDigit then do
      let p ← number c r
      .ok ⟨p.value, p.rest, Nat.lt_of_lt_of_le p.shorter hr⟩
    else if Text.isAlphabetic c ∨ c = '_' then
      let name := c :: (spanName r).1
      let rest := (spanName r).2
      have hrest : rest.length < s.length :=
        Nat.lt_of_le_of_lt (List.dropWhile_sublist (p := isNameChar) (l := r)).length_le hr
      if name = "True".toList then .ok ⟨.bool true, rest, hrest⟩
      else if name = "False".toList then .ok ⟨.bool false, rest, hrest⟩
      else if name = "None".toList then .ok ⟨.null, rest, hrest⟩
      else .error ⟨rest, .unsupportedName name⟩
    else .error ⟨c :: r, .unexpected c⟩
termination_by (s.length, 0)

/-- Values with commas between them up to `close`; a comma may stand before it. -/
def items (close : Char) (s : List Char) : Except Failure (Parsed s (List Literal)) :=
  match ht : skipTrivia s with
  | [] => .error ⟨[], .unexpectedEnd⟩
  | c :: r =>
    if c = close then .ok ⟨[], r, length_lt_of_cons ht (length_skipTrivia s)⟩
    else do
      let v ← value s
      match ha' : skipTrivia v.rest with
      | [] => .error ⟨[], .unterminated "sequence"⟩
      | d :: r' =>
        have hr := length_lt_of_cons ha' (Nat.le_trans (length_skipTrivia v.rest) (Nat.le_of_lt v.shorter))
        if d = ',' then do
          let p ← items close r'
          .ok ⟨v.value :: p.value, p.rest, Nat.lt_trans p.shorter hr⟩
        else if d = close then .ok ⟨[v.value], r', hr⟩
        else .error ⟨r', .separator close d⟩
termination_by (s.length, 1)

/-- The entries of a dict, in the order of the text. -/
def entries (s : List Char) : Except Failure (Parsed s (List (String × Literal))) :=
  match ht : skipTrivia s with
  | [] => .error ⟨[], .unexpectedEnd⟩
  | c :: r =>
    if c = '\x7d' then .ok ⟨[], r, length_lt_of_cons ht (length_skipTrivia s)⟩
    else do
      let k ← value s
      match k.value with
      | .text key =>
        match hc' : skipTrivia k.rest with
        | [] => .error ⟨[], .expected ':' none⟩
        | d :: r₁ =>
          have h₁ := length_lt_of_cons hc' (Nat.le_trans (length_skipTrivia k.rest) (Nat.le_of_lt k.shorter))
          if d = ':' then do
            let v ← value r₁
            match ha' : skipTrivia v.rest with
            | [] => .error ⟨[], .unterminated "dict"⟩
            | e :: r₂ =>
              have h₂ := Nat.lt_trans (length_lt_of_cons ha'
                (Nat.le_trans (length_skipTrivia v.rest) (Nat.le_of_lt v.shorter))) h₁
              if e = ',' then do
                let p ← entries r₂
                .ok ⟨(key, v.value) :: p.value, p.rest, Nat.lt_trans p.shorter h₂⟩
              else if e = '\x7d' then .ok ⟨[(key, v.value)], r₂, h₂⟩
              else .error ⟨r₂, .separator '\x7d' e⟩
          else .error ⟨r₁, .expected ':' (some d)⟩
      | other => .error ⟨k.rest, .keyNotText other⟩
termination_by (s.length, 1)

/-- What follows an opening parenthesis: one value in parentheses is that value, and a comma
    makes a list. -/
def group (s : List Char) : Except Failure (Parsed s Literal) :=
  match ht : skipTrivia s with
  | [] => .error ⟨[], .unexpectedEnd⟩
  | c :: r =>
    if c = ')' then .ok ⟨.list [], r, length_lt_of_cons ht (length_skipTrivia s)⟩
    else do
      let v ← value s
      match ha' : skipTrivia v.rest with
      | [] => .error ⟨[], .unterminated "group"⟩
      | d :: r' =>
        have hr := length_lt_of_cons ha' (Nat.le_trans (length_skipTrivia v.rest) (Nat.le_of_lt v.shorter))
        if d = ')' then .ok ⟨v.value, r', hr⟩
        else if d = ',' then do
          let p ← items ')' r'
          .ok ⟨.list (v.value :: p.value), p.rest, Nat.lt_trans p.shorter hr⟩
        else .error ⟨r', .separator ')' d⟩
termination_by (s.length, 1)

end

/-! ## Whole texts -/

/-- Nothing but trivia may follow the value. -/
def finish {s : List Char} (p : Parsed s Literal) : Except Failure Literal :=
  match skipTrivia p.rest with
  | [] => .ok p.value
  | c :: r => .error ⟨c :: r, .trailing c⟩

/-- Reads a literal that is the whole text. -/
def parse (s : List Char) : Except Failure Literal := do finish (← value s)

/-- Reads an assignment of a literal to `test` that is the whole text. -/
def parseAssignment (s : List Char) : Except Failure Literal :=
  let (name, r) := spanName (skipTrivia s)
  if name = "test".toList then
    match skipTrivia r with
    | [] => .error ⟨[], .expected '=' none⟩
    | c :: r' => if c = '=' then do finish (← value r') else .error ⟨r', .expected '=' (some c)⟩
  else .error ⟨r, .target name⟩

end Handout.Literal
