/-
  Handout.Files.Workspace — files as a value: a tree, the directory in which one works, and
  what graders were asked to grade there. `Workspace.filesOn` says what each operation
  does to that value, and what it refuses.

  A change is refused where the tree has no room for it. Beyond that the `Device` on which
  the tree is kept may fail: a file may not be opened, or only part of its text may be
  written, and an entry may not be moved. What could be made can be removed again.
  `Workspace.files` are those on a device that never fails.
-/

import Handout.Files.Basic
import Handout.Files.Tag
import Handout.Files.Tree

namespace Handout

structure Workspace where
  tree : FileTree
  /-- Where relative paths start. -/
  cwd : Location
  /-- The notebooks graded, each with the directory of its tests. -/
  graded : List (Path × Path)
  deriving DecidableEq, Repr, Inhabited

namespace Workspace

open FileTree (Landing)

/-- Where a path leads when a link at its end is followed. -/
def follow (w : Workspace) (p : Path) : Landing := w.tree.landing w.cwd true p

/-- Where the entry of a path is. -/
def entry (w : Workspace) (p : Path) : Landing := w.tree.landing w.cwd false p

/-- What stands where a path leads. -/
def nodeAt? (w : Workspace) : Landing → Option Node
  | .found loc => w.tree.node? loc
  | _ => none

def withTree (w : Workspace) (t : FileTree) : Workspace := { w with tree := t }

/-! ## Questions -/

def isPresent (w : Workspace) (p : Path) : Bool := (w.nodeAt? (w.follow p)).isSome

def isDirectory (w : Workspace) (p : Path) : Bool := w.nodeAt? (w.follow p) == some .directory

def isFile (w : Workspace) (p : Path) : Bool :=
  match w.nodeAt? (w.follow p) with
  | some (.file _) => true
  | _ => false

def isLink (w : Workspace) (p : Path) : Bool :=
  match w.nodeAt? (w.entry p) with
  | some (.link _) => true
  | _ => false

def text? (w : Workspace) (p : Path) : Option String :=
  match w.nodeAt? (w.follow p) with
  | some (.file (.text s)) => some s
  | _ => none

/-- The location of a directory. -/
def directory? (w : Workspace) (p : Path) : Option Location :=
  match w.follow p with
  | .found loc => if w.tree.node? loc = some .directory then some loc else none
  | _ => none

/-! ## Changes; `none` when refused -/

/-- Gives the file that a path leads to this content, and makes it where it is not. -/
def store? (w : Workspace) (p : Path) (c : Content) : Option Workspace :=
  match w.follow p with
  | .found loc =>
    match w.tree.node? loc with
    | some (.file _) => some (w.withTree (w.tree.put loc (.file c)))
    | _ => none
  | .vacant loc false => some (w.withTree (w.tree.put loc (.file c)))
  | _ => none

/-- A file that is copied onto itself is emptied. -/
def copy? (w : Workspace) (source target : Path) : Option Workspace :=
  match w.nodeAt? (w.follow source) with
  | some (.file c) => w.store? target (if w.follow source = w.follow target then .text "" else c)
  | _ => none

/-- What comes of making one directory. -/
inductive Making where
  | made (w : Workspace)
  | lacksParent
  | refused

/-- The path without slashes at its end; the root stays. -/
def withoutSlashes (p : Path) : Path :=
  match p.toList.reverse.dropWhile (· == '/') with
  | [] => p
  | cs => String.ofList cs.reverse

/-- Makes one directory. Its entry has to be free, even of a link. -/
def makeDirectory (w : Workspace) (p : Path) : Making :=
  match w.entry (withoutSlashes p) with
  | .vacant loc _ => .made (w.withTree (w.tree.put loc .directory))
  | .missing => .lacksParent
  | _ => .refused

/-- The state and whether it was done. -/
abbrev Attempt := Workspace × Bool

/-- Whether a path is a directory now. -/
def settled (w : Workspace) (p : Path) : Attempt := (w, w.isDirectory p)

/-- Makes a directory and those above it, going up at most `up` times. -/
def makeDirectories (w : Workspace) : (up : Nat) → Path → Attempt
  | 0, _ => (w, false)
  | up + 1, p =>
    if p = "" then (w, true)
    else
      match w.makeDirectory p with
      | .made w' => (w', true)
      | .refused => w.settled p
      | .lacksParent =>
        match Path.parent? p with
        | none => (w, false)
        | some q =>
          match w.makeDirectories up q with
          | (w', false) => (w', false)
          | (w', true) =>
            match w'.makeDirectory p with
            | .made w'' => (w'', true)
            | _ => w'.settled p

/-- Whether the last name of a path is one or two dots, or there is none. -/
def endsInDots (p : Path) : Bool :=
  match ((FileTree.namesOf p).reverse.dropWhile (· == "")).head? with
  | none => true
  | some n => n == "." || n == ".."

/-- Removes a link, or a directory with all it holds. Where the path does not name the
    directory itself (dots at its end, a link with a slash after it), what it holds
    goes and the rest is refused. -/
def removeAll (w : Workspace) (p : Path) : Attempt :=
  match w.entry p with
  | .found loc =>
    match w.tree.node? loc with
    | some (.link _) => (w.withTree (w.tree.erase loc), true)
    | some .directory =>
      if endsInDots p || w.isLink (withoutSlashes p) then (w.withTree (w.tree.eraseUnder loc), false)
      else (w.withTree (w.tree.eraseAll loc), true)
    | _ => (w, false)
  | _ => (w, false)

def remove? (w : Workspace) (p : Path) : Option Workspace :=
  match w.entry p with
  | .found loc =>
    match w.tree.node? loc with
    | some .directory => none
    | _ => some (w.withTree (w.tree.erase loc))
  | _ => none

/-- Moves an entry. A directory takes the place of an empty directory only, a file or link
    that of a file or link. -/
def rename? (w : Workspace) (source target : Path) : Option Workspace :=
  match w.entry source with
  | .found a =>
    let isDir := w.tree.node? a == some .directory
    match w.entry target with
    | .found b =>
      if a = b then some w
      else
        let overDir := w.tree.node? b == some .directory
        if isDir != overDir || (isDir && (! (w.tree.children b).isEmpty || FileTree.isWithin a b)) then none
        else some (w.withTree ((w.tree.erase b).move a b))
    | .vacant b slash =>
      if FileTree.isWithin a b || (slash && ! isDir) then none else some (w.withTree (w.tree.move a b))
    | _ => none
  | _ => none

/-- Puts a node where a path is, with the directories above it. -/
def plant (w : Workspace) (p : Path) (node : Node) : Workspace :=
  let w := ((Path.parent? p).map fun q => (w.makeDirectories (FileTree.maxPath + 1) q).1).getD w
  match node with
  | .directory => (w.makeDirectories (FileTree.maxPath + 1) p).1
  | .file c => (w.store? p c).getD w
  | .link target =>
    match w.entry p with
    | .found loc | .vacant loc _ => w.withTree (w.tree.put loc (.link target))
    | _ => w

/-- An empty directory to work in, beside the usual ones. -/
def empty : Workspace := ⟨FileTree.usual.put ["work"] .directory, ["work"], []⟩

/-- What stands below the directory one works in, by its path from there. -/
def below (w : Workspace) : List (Path × Node) :=
  w.tree.entries.filterMap fun e =>
    if FileTree.isWithin w.cwd e.1 && e.1 ≠ w.cwd then some ("/".intercalate (e.1.drop w.cwd.length), e.2) else none

/-! ## Devices -/

/-- How far a device lets a text be written. -/
inductive Writing where
  | whole
  /-- The file is not opened. -/
  | denied
  /-- The file is opened, and the device gives out after so many bytes. -/
  | cut (bytes : Nat)
  deriving DecidableEq, Repr, Inhabited

/-- What a device makes of the changes that the tree has room for. -/
structure Device where
  writing : Workspace → Path → (text : String) → Writing
  /-- Whether an entry may be moved. -/
  moves : Workspace → (source target : Path) → Bool

/-- A device that never fails. -/
def Device.sound : Device := ⟨fun _ _ _ => .whole, fun _ _ _ => true⟩

/-- Gives a file this content; `done` says whether that is all that was to be written. -/
def storePart (w : Workspace) (p : Path) (c : Content) (done : Bool) : Attempt :=
  match w.store? p c with
  | some w' => (w', done)
  | none => (w, false)

/-- Writes a text as far as the device lets it. -/
def writeOn (device : Device) (w : Workspace) (p : Path) (s : String) : Attempt :=
  match device.writing w p s with
  | .whole => w.storePart p (.text s) true
  | .denied => (w, false)
  | .cut n => w.storePart p (.part s n) false

/-- Moves an entry if the device lets it. -/
def renameOn (device : Device) (w : Workspace) (source target : Path) : Option Workspace :=
  if device.moves w source target then w.rename? source target else none

/-! ## The operations -/

/-- Does what may be refused. -/
def perform (change : Workspace → Option Workspace) : Action Workspace Unit := do
  match change (← get) with
  | some w => set w
  | none => throw .refused

/-- Does what may be done in part. -/
def performPart (change : Workspace → Attempt) : Action Workspace Unit := do
  let (w, done) := change (← get)
  set w
  unless done do throw .refused

def ask {α : Type} (question : Workspace → Option α) : Action Workspace α := do
  match question (← get) with
  | some a => return a
  | none => throw .refused

/-- A path with the first tag at which nothing is. -/
def unused (w : Workspace) (make : String → Path) : Path :=
  let isFree (p : Path) : Bool := (w.nodeAt? (w.entry p)).isNone
  (((List.range (w.tree.entries.length + 1)).map fun n => make (tagOf n)).find? isFree).getD (make (tagOf 0))

/-- Files kept in a workspace on a device, with a choice of ids for cells. -/
def filesOn (device : Device) (newId : List String → String) : Files (Action Workspace) where
  isPresent p := return (← get).isPresent p
  isDirectory p := return (← get).isDirectory p
  isFile p := return (← get).isFile p
  isLink p := return (← get).isLink p
  read p := ask (·.text? p)
  write p s := performPart (·.writeOn device p s)
  copy p q := perform (·.copy? p q)
  makeDirectories p := performPart (·.makeDirectories (FileTree.maxPath + 1) p)
  removeAll p := performPart (·.removeAll p)
  remove p := perform (·.remove? p)
  rename p q := perform (·.renameOn device p q)
  names p := ask fun w => (w.directory? p).map w.tree.children
  identity p := ask fun w => (w.directory? p).map fun loc => "/".intercalate loc
  unused make := return (← get).unused make
  newId taken := return newId taken

/-- Files kept in a workspace on a device that never fails. -/
def files (newId : List String → String) : Files (Action Workspace) := filesOn .sound newId

end Workspace
end Handout
