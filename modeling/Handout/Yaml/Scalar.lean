/-
  Handout.Yaml.Scalar — the texts of scalars: plain, quoted and block. Line ends inside a
  scalar fold: one is a blank, further ones stay.

  Every reader takes an amount of work that the length of the text bounds, and answers
  the text read and the place after it, or nothing where the text is malformed.
-/

import Handout.Text.Hex
import Handout.Yaml.Cursor

namespace Handout.Yaml

/-! ## Gaps between words -/

/-- White space between two words: blanks, and from the first line end on the line ends. -/
structure Gap where
  blanks : List Char
  broken : Bool
  first : List Char
  others : List Char

/-- The text of a gap. -/
def Gap.text (g : Gap) : List Char :=
  if ¬ g.broken then g.blanks
  else if g.first = ['\n'] then (if g.others = [] then [' '] else g.others)
  else g.first ++ g.others

/-- Takes a gap, adding to what was taken; a tab in the indentation below `limit` is refused. -/
def takeGap (limit : Nat) : Nat → Gap → Cursor → Option (Gap × Cursor)
  | 0, _, _ => none
  | n + 1, g, c =>
    let ch := c.peek
    if isGap ch then
      if g.broken then
        if c.column < limit && ch == '\t' then none else takeGap limit n g (c.skip 1)
      else takeGap limit n { g with blanks := g.blanks ++ [ch] } (c.skip 1)
    else if isBreak ch then
      let (b, c') := c.takeBreak
      if g.broken then takeGap limit n { g with others := g.others ++ b } c'
      else takeGap limit n { g with blanks := [], broken := true, first := b } c'
    else some (g, c)

def noGap : Gap := ⟨[], false, [], []⟩

/-- The gap after an escaped line end, which is no line end of the text. -/
def escapedGap : Gap := ⟨[], true, [], []⟩

/-! ## Plain scalars -/

/-- What a word of a plain scalar in a flow collection may not be followed by after `:`. -/
def isFlowMark (c : Char) : Bool := c == ',' || c == '?' || c == '[' || c == ']' || c == '\x7b' || c == '\x7d'

/-- Characters that end a plain scalar in a flow collection. -/
def endsFlow (c : Char) : Bool := c == ',' || c == '[' || c == ']' || c == '\x7b' || c == '\x7d'

/-- One word of a plain scalar. -/
def plainWord (inFlow : Bool) : Nat → Cursor → Option (List Char × Cursor)
  | 0, _ => none
  | n + 1, c =>
    let ch := c.peek
    if isSpaceOrEnd ch then some ([], c)
    else if inFlow && ch == ':' && isFlowMark (c.ahead 1) then none
    else if (ch == ':' && isSpaceOrEnd (c.ahead 1)) || (inFlow && endsFlow ch) then some ([], c)
    else do
      let (w, c') ← plainWord inFlow n (c.skip 1)
      return (ch :: w, c')

/-- A plain scalar with its lines indented by at least `limit`; also whether it ends after a
    line end. -/
def plainScalar (inFlow : Bool) (limit : Nat) :
    Nat → Gap → Cursor → Option (List Char × Bool × Cursor)
  | 0, _, _ => none
  | n + 1, g, c =>
    if c.atDocumentMark || c.peek == '#' then some ([], g.broken, c)
    else do
      let (w, c₁) ← plainWord inFlow (c.rest.length + 1) c
      let head := if w = [] then [] else g.text ++ w
      let g₁ := if w = [] then g else noGap
      if ¬ isGapOrBreak c₁.peek then return (head, g₁.broken, c₁)
      let (g₂, c₂) ← takeGap limit (c₁.rest.length + 1) g₁ c₁
      if ¬ inFlow ∧ c₂.column < limit then return (head, g₂.broken, c₂)
      let (t, broken, c₃) ← plainScalar inFlow limit n g₂ c₂
      return (head ++ t, broken, c₃)

/-! ## Quoted scalars -/

/-- An escape of one letter. -/
def escapeOf? (c : Char) : Option Char :=
  match c with
  | '0' => some '\x00'
  | 'a' => some '\x07'
  | 'b' => some '\x08'
  | 't' => some '\t'
  | '\t' => some '\t'
  | 'n' => some '\n'
  | 'v' => some '\x0b'
  | 'f' => some '\x0c'
  | 'r' => some '\r'
  | 'e' => some '\x1b'
  | ' ' => some ' '
  | '"' => some '"'
  | '/' => some '/'
  | '\\' => some '\\'
  | 'N' => some '\u0085'
  | '_' => some '\u00a0'
  | 'L' => some '\u2028'
  | 'P' => some '\u2029'
  | _ => none

/-- How many hexadecimal digits an escape letter takes. -/
def escapeWidth? (c : Char) : Option Nat :=
  if c == 'x' then some 2 else if c == 'u' then some 4 else if c == 'U' then some 8 else none

/-- One word of a quoted scalar; also whether it ends at an escaped line end. -/
def quotedWord (single : Bool) : Nat → Cursor → Option (List Char × Bool × Cursor)
  | 0, _ => none
  | n + 1, c =>
    let ch := c.peek
    if isSpaceOrEnd ch then some ([], false, c)
    else if single && ch == '\'' && c.ahead 1 == '\'' then do
      let (w, e, c') ← quotedWord single n (c.skip 2)
      return ('\'' :: w, e, c')
    else if ch == (if single then '\'' else '"') then some ([], false, c)
    else if !single && ch == '\\' && isBreak (c.ahead 1) then some ([], true, (c.skip 1).skipBreak)
    else if !single && ch == '\\' then
      match escapeOf? (c.ahead 1) with
      | some x => do
        let (w, e, c') ← quotedWord single n (c.skip 2)
        return (x :: w, e, c')
      | none => do
        let width ← escapeWidth? (c.ahead 1)
        let ds := (c.rest.drop 2).take width
        if ds.length < width then none
        let code ← Text.Hex.number? ds
        let x ← Text.Hex.charOfCode? code
        let (w, e, c') ← quotedWord single n (c.skip (2 + width))
        return (x :: w, e, c')
    else do
      let (w, e, c') ← quotedWord single n (c.skip 1)
      return (ch :: w, e, c')

/-- A quoted scalar after its opening quote, up to and with the closing one. -/
def quotedScalar (single : Bool) : Nat → Cursor → Option (List Char × Cursor)
  | 0, _ => none
  | n + 1, c =>
    if c.atDocumentMark || isEnd c.peek then none
    else do
      let (w, escaped, c₁) ← quotedWord single (c.rest.length + 1) c
      if c₁.peek == (if single then '\'' else '"') then return (w, c₁.skip 1)
      let (g, c₂) ← takeGap 0 (c₁.rest.length + 1) (if escaped then escapedGap else noGap) c₁
      let (t, c₃) ← quotedScalar single n c₂
      return (w ++ g.text ++ t, c₃)

/-! ## Block scalars -/

/-- What is kept of the line ends at the end of a block scalar. -/
inductive Chomp where
  | strip
  | clip
  | keep
  deriving DecidableEq

/-- The chomping mark and the indentation after the block mark, in either order. -/
def blockHeader (c : Cursor) : Option (Chomp × Nat × Cursor) :=
  let chompOf (ch : Char) : Option Chomp :=
    if ch == '+' then some .keep else if ch == '-' then some .strip else none
  let digit (c : Cursor) : Option (Nat × Cursor) :=
    if c.peek == '0' then none
    else if c.peek.isDigit then some (c.peek.toNat - '0'.toNat, c.skip 1)
    else some (0, c)
  match chompOf c.peek with
  | some k => do
    let (n, c') ← digit (c.skip 1)
    return (k, n, c')
  | none => do
    let (n, c') ← digit c
    if n = 0 then return (.clip, 0, c')
    else
      match chompOf c'.peek with
      | some k => return (k, n, c'.skip 1)
      | none => return (.clip, n, c')

/-- Indentation and empty lines before a line of a block scalar. An indentation of 0 is not
    known yet; `widest` is the widest column so far. -/
def blockBreaks (indent : Nat) : Nat → Nat → List Char → Cursor → Option (Nat × List Char × Cursor)
  | 0, _, _, _ => none
  | n + 1, widest, acc, c =>
    let blanks := (c.rest.takeWhile (· == ' ')).length
    let c₁ := c.skip (if indent = 0 then blanks else min blanks (indent - c.column))
    let widest := max widest c₁.column
    if (indent = 0 ∨ c₁.column < indent) ∧ c₁.peek = '\t' then none
    else if isBreak c₁.peek then
      let (b, c₂) := c₁.takeBreak
      blockBreaks indent n widest (acc ++ b) c₂
    else some (widest, acc, c₁)

/-- The lines of a block scalar from a line that may be its first. `lead` is the end of the
    line before, `trail` the empty lines after it. -/
def blockLines (literal : Bool) (chomp : Chomp) (indent : Nat) :
    Nat → Bool → List Char → List Char → Cursor → Option (List Char × Cursor)
  | 0, _, _, _, _ => none
  | n + 1, afterBlank, lead, trail, c =>
    if c.column = indent ∧ ¬ isEnd c.peek then do
      let blank := isGap c.peek
      let joint :=
        if ¬ literal ∧ lead = ['\n'] ∧ ¬ afterBlank ∧ ¬ blank then
          (if trail = [] then [' '] else []) ++ trail
        else lead ++ trail
      let line := c.rest.takeWhile fun ch => ! isBreak ch
      let (b, c₁) := (c.skip line.length).takeBreak
      let (_, trail', c₂) ← blockBreaks indent (c₁.rest.length + 1) 0 [] c₁
      let (t, c₃) ← blockLines literal chomp indent n blank b trail' c₂
      return (joint ++ line ++ t, c₃)
    else
      some ((if chomp = .strip then [] else lead) ++ (if chomp = .keep then trail else []), c)

/-- A block scalar after its mark, inside a block indented to `parent`. -/
def blockScalar (literal : Bool) (parent : Int) (c : Cursor) : Option (List Char × Cursor) := do
  let (chomp, increment, c₁) ← blockHeader c
  let c₂ := c₁.skipWhile isGap
  let c₃ := if c₂.peek == '#' then c₂.skipWhile (! isBreakOrEnd ·) else c₂
  if ¬ isBreakOrEnd c₃.peek then none
  let c₄ := c₃.skipBreak
  let given : Nat :=
    if increment = 0 then 0 else if 0 ≤ parent then parent.toNat + increment else increment
  let (widest, trail, c₅) ← blockBreaks given (c₄.rest.length + 1) 0 [] c₄
  let indent := if given = 0 then max (max widest (parent + 1).toNat) 1 else given
  blockLines literal chomp indent (c₅.rest.length + 1) false [] trail c₅

end Handout.Yaml
