/-
  Handout.Yaml.Cursor — a place in a YAML text: what is ahead, how many bytes are behind,
  and the line and column, in characters, that block structure is read from. Past the end stands the NUL character, which no
  text may hold.
-/

namespace Handout.Yaml

structure Cursor where
  rest : List Char
  index : Nat
  line : Nat
  column : Nat
  deriving Inhabited

/-- The characters a text may hold. -/
def isAllowed (c : Char) : Bool :=
  let n := c.toNat
  n == 0x09 || n == 0x0a || n == 0x0d || (0x20 ≤ n && n ≤ 0x7e) || n == 0x85 ||
    (0xa0 ≤ n && n ≤ 0xd7ff) || (0xe000 ≤ n && n ≤ 0xfffd) || 0x10000 ≤ n

def isEnd (c : Char) : Bool := c.toNat == 0
def isBreak (c : Char) : Bool :=
  c == '\n' || c == '\r' || c.toNat == 0x85 || c.toNat == 0x2028 || c.toNat == 0x2029
def isGap (c : Char) : Bool := c == ' ' || c == '\t'
def isGapOrBreak (c : Char) : Bool := isGap c || isBreak c
def isBreakOrEnd (c : Char) : Bool := isBreak c || isEnd c
/-- White space of any kind, or the end. -/
def isSpaceOrEnd (c : Char) : Bool := isGap c || isBreakOrEnd c
/-- The characters of anchors, directive names and tag handles. -/
def isWordChar (c : Char) : Bool := c.isAlphanum || c == '_' || c == '-'
def isByteMark (c : Char) : Bool := c.toNat == 0xfeff

namespace Cursor

def start (text : List Char) : Cursor := ⟨text, 0, 0, 0⟩

/-- The character `n` places ahead. -/
def ahead (c : Cursor) (n : Nat) : Char := (c.rest[n]?).getD '\x00'

def peek (c : Cursor) : Char := c.ahead 0

/-- The bytes of characters. -/
def bytes (cs : List Char) : Nat := cs.foldl (fun n c => n + c.utf8Size) 0

def skip (c : Cursor) (n : Nat) : Cursor :=
  ⟨c.rest.drop n, c.index + bytes (c.rest.take n), c.line, c.column + n⟩

/-- Past the characters of a class, none of them a line end. -/
def skipWhile (p : Char → Bool) (c : Cursor) : Cursor := c.skip (c.rest.takeWhile p).length

/-- Past a line end, with the text it stands for: a paragraph or line separator is kept, every
    other one is a plain line end. -/
def takeBreak (c : Cursor) : List Char × Cursor :=
  match c.rest with
  | '\r' :: '\n' :: r => (['\n'], ⟨r, c.index + 2, c.line + 1, 0⟩)
  | b :: r =>
    if isBreak b then
      (if b.toNat == 0x2028 || b.toNat == 0x2029 then [b] else ['\n'], ⟨r, c.index + b.utf8Size, c.line + 1, 0⟩)
    else ([], c)
  | [] => ([], c)

def skipBreak (c : Cursor) : Cursor := c.takeBreak.2

/-- Whether a document mark (`---` or `...`) stands at the start of the line here. -/
def atMark (c : Cursor) (mark : Char) : Bool :=
  c.column == 0 && c.ahead 0 == mark && c.ahead 1 == mark && c.ahead 2 == mark && isSpaceOrEnd (c.ahead 3)

def atDocumentMark (c : Cursor) : Bool := c.atMark '-' || c.atMark '.'

end Cursor
end Handout.Yaml
