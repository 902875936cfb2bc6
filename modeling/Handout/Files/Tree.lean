/-
  Handout.Files.Tree — a tree of files as a table from locations to what stands there. A
  location is the list of names from the root; the root is a directory and is not in the
  table.

  `walk` follows a path from a directory. A name on the way has to be a directory or a
  link to one, links are followed at most `maxLinks` times, and the last name may be
  free, so that something can be made there. Everything that changes a tree acts at one
  location: `put`, `erase`, `eraseUnder` and `move`.
-/

import Handout.Path

namespace Handout

/-- What a file holds: a text, or bytes that are no text. -/
inductive Content where
  | text (s : String)
  | bytes (bs : List UInt8)
  deriving DecidableEq, Repr, Inhabited

namespace Content

def ofBytes (bs : ByteArray) : Content :=
  match String.fromUTF8? bs with
  | some s => .text s
  | none => .bytes bs.toList

/-- What a file holds when only so many bytes of a text have been written. -/
def part (s : String) (bytes : Nat) : Content := .ofBytes (s.toUTF8.extract 0 bytes)

end Content

inductive Node where
  | directory
  | file (content : Content)
  | link (target : Path)
  deriving DecidableEq, Repr, Inhabited

abbrev Location := List String

structure FileTree where
  entries : List (Location × Node)
  deriving DecidableEq, Repr, Inhabited

namespace FileTree

/-- The directories that are there from the start. -/
def usual : FileTree :=
  ⟨([["bin"], ["boot"], ["dev"], ["etc"], ["home"], ["lib"], ["mnt"], ["opt"], ["proc"], ["root"], ["run"], ["sbin"],
    ["srv"], ["sys"], ["tmp"], ["usr"], ["usr", "bin"], ["usr", "lib"], ["usr", "local"], ["usr", "local", "bin"],
    ["usr", "sbin"], ["usr", "share"], ["var"], ["var", "lib"], ["var", "log"], ["var", "tmp"]] : List Location).map
    fun loc => (loc, .directory)⟩

/-! ## Look-up and change at a location -/

/-- What stands at a location. -/
def node? (t : FileTree) (loc : Location) : Option Node :=
  if loc = [] then some .directory else t.entries.lookup loc

/-- The names in the directory at a location. -/
def children (t : FileTree) (loc : Location) : List String :=
  t.entries.filterMap fun e => if e.1.dropLast = loc then e.1.getLast? else none

/-- Puts a node at a location, in place of what stands there. -/
def put (t : FileTree) (loc : Location) (node : Node) : FileTree :=
  ⟨t.entries.filter (fun e => e.1 ≠ loc) ++ [(loc, node)]⟩

def erase (t : FileTree) (loc : Location) : FileTree := ⟨t.entries.filter fun e => e.1 ≠ loc⟩

/-- Whether a location lies at or below another. -/
def isWithin (loc l : Location) : Bool := loc.isPrefixOf l

/-- Without what stands at a location and below it. -/
def eraseAll (t : FileTree) (loc : Location) : FileTree := ⟨t.entries.filter fun e => ! isWithin loc e.1⟩

/-- Without what stands below a location. -/
def eraseUnder (t : FileTree) (loc : Location) : FileTree :=
  ⟨t.entries.filter fun e => ! isWithin loc e.1 || e.1 = loc⟩

/-- With all that stands at `a` and below it moved to `b`. -/
def move (t : FileTree) (a b : Location) : FileTree :=
  ⟨t.entries.map fun e => if isWithin a e.1 then (b ++ e.1.drop a.length, e.2) else e⟩

/-! ## Following a path -/

/-- Where a path leads. -/
inductive Landing where
  /-- Something stands there. -/
  | found (loc : Location)
  /-- Nothing stands there, but its directory does. `slash` says that a slash follows. -/
  | vacant (loc : Location) (slash : Bool)
  /-- A directory on the way is not there. -/
  | missing
  /-- A name on the way is no directory, or cannot be followed. -/
  | blocked (why : PathFault)
  deriving DecidableEq, Repr, Inhabited

/-- How many links are followed on the way. -/
def maxLinks : Nat := 40

/-- How many bytes a name may have. -/
def maxName : Nat := 255

/-- How many bytes a path may have. -/
def maxPath : Nat := 4095

/-- The names of a path, empty ones included. -/
def namesOf (p : Path) : List String := (Path.splitSlash p.toList).map String.ofList

/-- Follows names from the directory at `loc`. A link at the very end is followed when
    `follow` says so, or when a slash comes after it. From a link that is followed on,
    `jump` goes on with the names it leads to and those after it. -/
def walkWith (t : FileTree) (follow : Bool) (jump : Location → List String → Landing) (loc : Location) :
    List String → Landing
  | [] => .found loc
  | name :: rest =>
    if name = "" ∨ name = "." then walkWith t follow jump loc rest
    else if name = ".." then walkWith t follow jump loc.dropLast rest
    else if name.utf8ByteSize > maxName then .blocked .tooLong
    else
      let here := loc ++ [name]
      match t.node? here with
      | none => if rest.all (· == "") then .vacant here (! rest.isEmpty) else .missing
      | some .directory => walkWith t follow jump here rest
      | some (.file _) => if rest.isEmpty then .found here else .blocked .notDirectory
      | some (.link target) =>
        if rest.isEmpty && ! follow then .found here
        else if target = "" then .missing
        else jump (if Path.isAbsolute target then [] else loc) (namesOf target ++ rest)

/-- Follows names from the directory at `loc`, and at most so many links. -/
def walk (t : FileTree) (follow : Bool) : (links : Nat) → Location → List String → Landing
  | 0 => walkWith t follow fun _ _ => .blocked .tooManyLinks
  | links + 1 => walkWith t follow (walk t follow links)

/-- Follows a path; a relative one starts at `cwd`. -/
def landing (t : FileTree) (cwd : Location) (follow : Bool) (p : Path) : Landing :=
  if p = "" then .missing
  else if p.utf8ByteSize > maxPath then .blocked .tooLong
  else walk t follow maxLinks (if Path.isAbsolute p then [] else cwd) (namesOf p)

end FileTree
end Handout
