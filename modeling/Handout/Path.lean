/-
  Handout.Path — paths as text. A path is names with slashes between them; empty names and
  single dots say nothing, except for a dot that comes first. A path that starts with a
  slash is absolute.

  Names are Unicode text here, and only such names are spoken of: a system may hold files
  whose names are bytes that are no text, and what becomes of those is left out.
-/

namespace Handout

abbrev Path := String

/-- Why a path leads to nothing. -/
inductive PathFault where
  | missing
  | notDirectory
  | tooLong
  | tooManyLinks
  deriving DecidableEq, Repr, Inhabited

namespace Path

/-- The names between the slashes, empty ones included. -/
def splitSlash : List Char → List (List Char)
  | [] => [[]]
  | c :: r =>
    if c = '/' then [] :: splitSlash r
    else
      match splitSlash r with
      | [] => [[c]]
      | n :: ns => (c :: n) :: ns

def joinSlash : List (List Char) → List Char
  | [] => []
  | [n] => n
  | n :: ns => n ++ '/' :: joinSlash ns

def isAbsolute (p : Path) : Bool := p.toList.head? == some '/'

/-- A name that says nothing after another one. -/
def isIdle (n : List Char) : Bool := n == [] || n == ['.']

/-- The names in reverse without the idle ones at the end; the first name stays. -/
def dropIdle : List (List Char) → List (List Char)
  | [] => []
  | [n] => [n]
  | n :: m :: ns => if isIdle n then dropIdle (m :: ns) else n :: m :: ns

/-- The names of a path in reverse, its last one first. -/
def reversed (p : Path) : List (List Char) := dropIdle (splitSlash p.toList).reverse

/-- The name at the end of a path, unless the end is a dot, two dots or a slash alone. -/
def fileName? (p : Path) : Option String :=
  match reversed p with
  | [] => none
  | n :: _ => if isIdle n || n == ['.', '.'] then none else some (String.ofList n)

/-- The path before the last name. The empty path and the root have none. -/
def parent? (p : Path) : Option Path :=
  match reversed p with
  | [] => none
  | [n] => if n == [] then none else some ""
  | _ :: ns =>
    match dropIdle ns with
    | [[]] => some "/"
    | ms => some (String.ofList (joinSlash ms.reverse))

/-- `b` seen from `a`: an absolute `b` stands for itself. -/
def join (a b : Path) : Path :=
  if b.isAbsolute then b
  else if a.isEmpty then b
  else if a.toList.getLast? == some '/' then a ++ b
  else a ++ "/" ++ b

/-! ## Names of files -/

/-- A name before and after its last dot; a dot at the start does not count. -/
def splitDot (name : List Char) : List Char × Option (List Char) :=
  let tail := name.reverse.takeWhile (· ≠ '.')
  let head := (name.reverse.drop (tail.length + 1)).reverse
  if head = [] then (name, none) else (head, some tail.reverse)

def extension? (name : String) : Option String := (splitDot name.toList).2.map String.ofList

def stem (name : String) : String := String.ofList (splitDot name.toList).1

end Path
end Handout
