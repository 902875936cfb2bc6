/-
  Handout.Yaml.Token — the tokens of a YAML text. Block structure is made explicit here:
  a deeper column opens a collection, a shallower one closes it, and a key is noticed
  only at its `:`, so its token goes back to where the key began.
-/

import Handout.Yaml.Scalar

namespace Handout.Yaml

inductive Token where
  | version (major minor : Nat)
  | tagHandle (handle pre : List Char)
  | documentStart
  | documentEnd
  | blockSeqStart
  | blockMapStart
  | blockEnd
  | flowSeqStart
  | flowSeqEnd
  | flowMapStart
  | flowMapEnd
  | blockEntry
  | flowEntry
  | key
  | value
  | alias (name : List Char)
  | anchor (name : List Char)
  | tag (handle suffix : List Char)
  | scalar (isPlain : Bool) (text : List Char)
  deriving DecidableEq, Inhabited

/-- A place where a key may have begun, and how many tokens came before it. A required one has
    to turn out to be a key. -/
structure KeyStart where
  required : Bool
  before : Nat
  index : Nat
  line : Nat
  column : Nat

/-- Scanning in progress. `keys` holds the possible key of every open flow collection, the
    innermost first, and last that of the block around them. -/
structure Scan where
  cursor : Cursor
  tokens : List Token
  keys : List (Option KeyStart)
  indent : Int
  indents : List Int
  keyAllowed : Bool

namespace Scan

def start (text : List Char) : Scan := ⟨Cursor.start text, [], [none], -1, [], true⟩

def inFlow (s : Scan) : Bool := s.keys.length > 1

def push (s : Scan) (t : Token) : Scan := { s with tokens := s.tokens ++ [t] }

def advance (s : Scan) (n : Nat) : Scan := { s with cursor := s.cursor.skip n }

/-! ## Keys and indentation -/

/-- Whether a key begun there can no longer be one: it has to be on one line and short. -/
def isStale (c : Cursor) (k : KeyStart) : Bool := k.line < c.line || k.index + 1024 < c.index

/-- Drops the keys that can no longer be; a required one among them is an error. -/
def dropStale (s : Scan) : Option Scan :=
  if s.keys.any fun k => k.any fun k => isStale s.cursor k && k.required then none
  else some { s with keys := s.keys.map fun k => k.filter fun k => ! isStale s.cursor k }

/-- Forgets the possible key of the innermost level; a required one is an error. -/
def forgetKey (s : Scan) : Option Scan :=
  match s.keys with
  | some k :: rest => if k.required then none else some { s with keys := none :: rest }
  | _ => some s

/-- Notes that a key may begin here. -/
def noteKey (s : Scan) : Option Scan :=
  if s.keyAllowed then do
    let s ← s.forgetKey
    let c := s.cursor
    let k : KeyStart := ⟨! s.inFlow && s.indent == c.column, s.tokens.length, c.index, c.line, c.column⟩
    return { s with keys := some k :: s.keys.tail }
  else some s

/-- Closes block collections that are deeper than a column. -/
def unroll (column : Int) (s : Scan) : Scan :=
  if s.inFlow then s
  else
    let closed := s.indents.length - (s.indents.dropWhile (· > column)).length
    if s.indent > column then
      { s with
        tokens := s.tokens ++ List.replicate (closed + 1) .blockEnd
        indent := (s.indents.drop closed).headD (-1)
        indents := s.indents.drop (closed + 1) }
    else s

/-- Opens a block collection when a column is deeper than the current one, its token at the
    given position. -/
def roll (column : Nat) (position : Nat) (t : Token) (s : Scan) : Scan :=
  if ! s.inFlow && s.indent < column then
    { s with
      tokens := s.tokens.insertIdx position t
      indent := column
      indents := s.indent :: s.indents }
  else s

/-! ## To the next token -/

/-- Skips blanks, comments and line ends. A tab does not count as a blank where a key may
    begin in a block. -/
def toNext : Nat → Scan → Scan
  | 0, s => s
  | n + 1, s =>
    let c := s.cursor
    let c := if c.column == 0 && isByteMark c.peek then c.skip 1 else c
    let tabs := s.inFlow || ! s.keyAllowed
    let c := c.skipWhile fun ch => ch == ' ' || (tabs && ch == '\t')
    let c := if c.peek == '#' then c.skipWhile (! isBreakOrEnd ·) else c
    if isBreak c.peek then
      toNext n { s with cursor := c.skipBreak, keyAllowed := s.keyAllowed || ! s.inFlow }
    else { s with cursor := c }

/-! ## Directives, anchors and tags -/

def takeWord (c : Cursor) : List Char × Cursor :=
  let w := c.rest.takeWhile isWordChar
  (w, c.skip w.length)

/-- A number of up to nine digits. -/
def takeNumber (c : Cursor) : Option (Nat × Cursor) :=
  let ds := c.rest.takeWhile Char.isDigit
  if ds = [] ∨ ds.length > 9 then none
  else some (Nat.ofDigitChars 10 ds 0, c.skip ds.length)

/-- A tag handle: `!`, or a word between two of them. In a directive it has to end in `!`. -/
def takeHandle (directive : Bool) (c : Cursor) : Option (List Char × Cursor) :=
  if c.peek ≠ '!' then none
  else
    let (w, c₁) := takeWord (c.skip 1)
    if c₁.peek == '!' then some ('!' :: w ++ ['!'], c₁.skip 1)
    else if directive ∧ w ≠ [] then none
    else some ('!' :: w, c₁)

def isUriChar (verbatim : Bool) (c : Char) : Bool :=
  isWordChar c || ";/?:@&=+$.!~*'()%".toList.contains c || (verbatim && ",[]".toList.contains c)

/-- The byte of a `%` escape. -/
def escapedByte? : List Char → Option Nat
  | '%' :: a :: b :: _ => Text.Hex.number? [a, b]
  | _ => none

/-- How many bytes a character has whose first byte this is. -/
def byteWidth? (b : Nat) : Option Nat :=
  if b < 0x80 then some 1
  else if 0xc0 ≤ b ∧ b < 0xe0 then some 2
  else if 0xe0 ≤ b ∧ b < 0xf0 then some 3
  else if 0xf0 ≤ b ∧ b < 0xf8 then some 4
  else none

/-- The bytes of `n` escapes in a row, the later ones continuing the first. -/
def escapedBytes? (continuing : Bool) : Nat → List Char → Option (List UInt8)
  | 0, _ => some []
  | n + 1, cs => do
    let b ← escapedByte? cs
    if continuing ∧ ¬ (0x80 ≤ b ∧ b < 0xc0) then none
    return UInt8.ofNat b :: (← escapedBytes? true n (cs.drop 3))

/-- The characters of a tag or prefix. -/
def takeUri (verbatim : Bool) : Nat → Cursor → Option (List Char × Cursor)
  | 0, _ => none
  | n + 1, c =>
    if c.peek == '%' then do
      let width ← byteWidth? (← escapedByte? c.rest)
      let bytes ← escapedBytes? false width c.rest
      let text ← String.fromUTF8? (ByteArray.mk bytes.toArray)
      let (t, c') ← takeUri verbatim n (c.skip (3 * width))
      return (text.toList ++ t, c')
    else if isUriChar verbatim c.peek then do
      let (t, c') ← takeUri verbatim n (c.skip 1)
      return (c.peek :: t, c')
    else some ([], c)

def takeSomeUri (verbatim : Bool) (c : Cursor) : Option (List Char × Cursor) := do
  let (t, c') ← takeUri verbatim (c.rest.length + 1) c
  if t = [] then none else some (t, c')

/-- A directive and the rest of its line. -/
def directive (c : Cursor) : Option (Token × Cursor) := do
  let (name, c₁) := takeWord (c.skip 1)
  if name = [] ∨ ¬ isSpaceOrEnd c₁.peek then none
  let (t, c₂) ←
    if name = "YAML".toList then do
      let (major, c₂) ← takeNumber (c₁.skipWhile isGap)
      if c₂.peek ≠ '.' then none
      let (minor, c₃) ← takeNumber (c₂.skip 1)
      some (Token.version major minor, c₃)
    else if name = "TAG".toList then do
      let (handle, c₂) ← takeHandle true (c₁.skipWhile isGap)
      if ¬ isGap c₂.peek then none
      let (uri, c₃) ← takeSomeUri true (c₂.skipWhile isGap)
      if ¬ isSpaceOrEnd c₃.peek then none
      some (Token.tagHandle handle uri, c₃)
    else none
  let c₃ := c₂.skipWhile isGap
  let c₄ := if c₃.peek == '#' then c₃.skipWhile (! isBreakOrEnd ·) else c₃
  if ¬ isBreakOrEnd c₄.peek then none
  return (t, c₄.skipBreak)

/-- The name of an anchor or alias after its mark. -/
def anchorName (c : Cursor) : Option (List Char × Cursor) :=
  let (w, c₁) := takeWord (c.skip 1)
  if w = [] then none
  else if isSpaceOrEnd c₁.peek || "?:,]\x7d%@\x60".toList.contains c₁.peek then some (w, c₁)
  else none

/-- A tag: `!<uri>`, a handle and a suffix, or `!` with a suffix that may be missing. -/
def takeTag (inFlow : Bool) (c : Cursor) : Option (Token × Cursor) := do
  let (t, c₁) ←
    if c.ahead 1 == '<' then do
      let (uri, c₁) ← takeSomeUri true (c.skip 2)
      if c₁.peek ≠ '>' then none
      some (Token.tag [] uri, c₁.skip 1)
    else do
      let (handle, c₁) ← takeHandle false c
      if handle.length > 1 ∧ handle.getLast? = some '!' then do
        let (uri, c₂) ← takeSomeUri false c₁
        some (Token.tag handle uri, c₂)
      else do
        let (uri, c₂) ← takeUri false (c₁.rest.length + 1) c₁
        let suffix := handle.drop 1 ++ uri
        some (if suffix = [] then Token.tag [] ['!'] else Token.tag ['!'] suffix, c₂)
  if (inFlow && c₁.peek == ',') || isSpaceOrEnd c₁.peek then some (t, c₁) else none

/-! ## One token -/

def blockOnly (s : Scan) (t : Token) : Option Scan :=
  if s.inFlow then some s
  else if s.keyAllowed then some (s.roll s.cursor.column s.tokens.length t)
  else none

def mark (s : Scan) (t : Token) (width : Nat) : Option Scan := do
  let s ← (s.unroll (-1)).forgetKey
  return ({ s with keyAllowed := false }.advance width).push t

/-- An opening bracket may begin a key and opens a level of its own. -/
def openFlow (s : Scan) (t : Token) : Option Scan := do
  let s ← s.noteKey
  return { (s.advance 1).push t with keys := none :: s.keys, keyAllowed := true }

def closeFlow (s : Scan) (t : Token) : Option Scan := do
  let s ← s.forgetKey
  return { (s.advance 1).push t with
    keys := if s.inFlow then s.keys.tail else s.keys
    keyAllowed := false }

/-- A `:` makes the possible key of the level a key; without one it follows an explicit key. -/
def takeValue (s : Scan) : Option Scan :=
  match s.keys with
  | some k :: rest =>
    let s := { s with tokens := s.tokens.insertIdx k.before .key, keys := none :: rest, keyAllowed := false }
    let s := s.roll k.column k.before .blockMapStart
    some ((s.advance 1).push .value)
  | _ => do
    let s ← s.blockOnly .blockMapStart
    return ({ s with keyAllowed := ! s.inFlow }.advance 1).push .value

/-- A scalar, alias, anchor or tag read from here; it may begin a key, and none follows it. -/
def content (s : Scan) (read : Cursor → Option (Token × Cursor)) : Option Scan := do
  let s ← s.noteKey
  let (t, c) ← read s.cursor
  return { s with cursor := c, keyAllowed := false }.push t

def startsPlain (inFlow : Bool) (a b : Char) : Bool :=
  !(isSpaceOrEnd a || "-?:,[]\x7b\x7d#&*!|>'\"%@\x60".toList.contains a) || (a == '-' && ! isGap b) ||
    (!inFlow && (a == '?' || a == ':') && ! isSpaceOrEnd b)

/-- Reads the token at the cursor, which is not at the end. -/
def take (s : Scan) : Option Scan :=
  let c := s.cursor
  let a := c.peek
  let b := c.ahead 1
  let inFlow := s.inFlow
  if c.column == 0 && a == '%' then do
    let s ← (s.unroll (-1)).forgetKey
    let (t, c) ← directive s.cursor
    return { s with cursor := c, keyAllowed := false }.push t
  else if c.atMark '-' then s.mark .documentStart 3
  else if c.atMark '.' then s.mark .documentEnd 3
  else if a == '[' then s.openFlow .flowSeqStart
  else if a == '\x7b' then s.openFlow .flowMapStart
  else if a == ']' then s.closeFlow .flowSeqEnd
  else if a == '\x7d' then s.closeFlow .flowMapEnd
  else if a == ',' then do
    let s ← s.forgetKey
    return ({ s with keyAllowed := true }.advance 1).push .flowEntry
  else if a == '-' && isSpaceOrEnd b then do
    let s ← s.blockOnly .blockSeqStart
    let s ← s.forgetKey
    return ({ s with keyAllowed := true }.advance 1).push .blockEntry
  else if a == '?' && (inFlow || isSpaceOrEnd b) then do
    let s ← s.blockOnly .blockMapStart
    let s ← s.forgetKey
    return ({ s with keyAllowed := ! inFlow }.advance 1).push .key
  else if a == ':' && (inFlow || isSpaceOrEnd b) then s.takeValue
  else if a == '*' then s.content fun c => (anchorName c).map fun p => (.alias p.1, p.2)
  else if a == '&' then s.content fun c => (anchorName c).map fun p => (.anchor p.1, p.2)
  else if a == '!' then s.content (takeTag inFlow)
  else if !inFlow && (a == '|' || a == '>') then do
    let s ← s.forgetKey
    let (t, c) ← blockScalar (a == '|') s.indent (s.cursor.skip 1)
    return { s with cursor := c, keyAllowed := true }.push (.scalar false t)
  else if a == '\'' || a == '"' then
    s.content fun c =>
      (quotedScalar (a == '\'') (c.rest.length + 1) (c.skip 1)).map fun p => (.scalar false p.1, p.2)
  else if startsPlain inFlow a b then do
    let s ← s.noteKey
    let (t, broken, c) ← plainScalar inFlow (s.indent + 1).toNat (s.cursor.rest.length + 1) noGap s.cursor
    return { s with cursor := c, keyAllowed := broken }.push (.scalar true t)
  else none

/-- At the end every block closes and no required key may be left open. -/
def finish (s : Scan) : Option (List Token) := do
  let c := s.cursor
  let c := if c.column ≠ 0 then { c with column := 0, line := c.line + 1 } else c
  let s ← ({ s with cursor := c }.unroll (-1)).forgetKey
  return s.tokens

/-- All tokens; every round takes at least one character. -/
def run : Nat → Scan → Option (List Token)
  | 0, _ => none
  | n + 1, s => do
    let s ← (toNext (s.cursor.rest.length + 1) s).dropStale
    let s := s.unroll s.cursor.column
    if s.cursor.rest = [] then s.finish
    else run n (← s.take)

end Scan

/-- The tokens of a text, `none` when it is malformed. -/
def Token.ofText? (text : List Char) : Option (List Token) :=
  if text.all isAllowed then Scan.run (text.length + 2) (Scan.start text) else none

end Handout.Yaml
