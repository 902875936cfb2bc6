/-
  Handout.Main — the program at work on the files of the machine. How the machine starts a
  grader is left open.
-/

import Handout.CommandLine.Run

namespace Handout.Machine

/-- What the machine does, with one failure for all that it refuses. -/
def doing {α : Type} (x : IO α) : EIO Failure α := EIO.adapt (fun _ => .refused) x

/-- A random number of some bytes. -/
def random (bytes : USize) : IO Nat := do
  return (← IO.getRandomBytes bytes).toList.foldl (fun n b => n * 256 + b.toNat) 0

def isOfType (p : Path) (type : IO.FS.FileType) : IO Bool := do
  let q := (← IO.currentDir) / p
  if p.isEmpty || !(← q.pathExists) then return false
  return (← q.metadata).type == type

def isLink (p : Path) : IO Bool := do
  let q := (← IO.currentDir) / p
  try return (← q.symlinkMetadata).type == .symlink
  catch _ => return false

def isPresent (p : Path) : IO Bool := do
  return !p.isEmpty && (← ((← IO.currentDir) / p).pathExists)

def removeAll (p : Path) : IO Unit := do
  if ← isLink p then IO.FS.removeFile p else IO.FS.removeDirAll p

def makeDirectories (p : Path) : IO Unit := do
  unless p.isEmpty do IO.FS.createDirAll ((← IO.currentDir) / p)

def names (p : Path) : IO (List String) := do
  return ((← ((← IO.currentDir) / p).readDir).map fun e => e.fileName).toList

/-- A path with a random tag. -/
def unused (make : String → Path) : IO Path := do
  return make (tagOf (← random 16))

/-- The files of the machine. -/
def files : Files (EIO Failure) where
  isPresent p := doing (isPresent p)
  isDirectory p := doing (isOfType p .dir)
  isFile p := doing (isOfType p .file)
  isLink p := doing (isLink p)
  read p := doing (IO.FS.readFile p)
  write p s := doing (IO.FS.writeFile p s)
  copy p q := doing do IO.FS.writeBinFile q (← IO.FS.readBinFile p)
  makeDirectories p := doing (makeDirectories p)
  removeAll p := doing (removeAll p)
  remove p := doing (IO.FS.removeFile p)
  rename p q := doing (IO.FS.rename p q)
  names p := doing (names p)
  identity p := doing do return toString (← IO.FS.realPath p)
  unused make := doing (unused make)
  newId taken := doing do return freshId (← random 4) taken

/-- Runs the program, prints what it says and answers its exit code. -/
def run (launch : Launcher (EIO Failure)) (args : List String) : IO UInt32 := do
  match ← EIO.toBaseIO (CommandLine.run files launch args) with
  | .ok e =>
    IO.print e.printed
    if let some f := e.failure then IO.eprint (Ending.failureText f)
    return e.code.toUInt32
  | .error f =>
    IO.eprint (Ending.failureText f)
    return 1

end Handout.Machine
