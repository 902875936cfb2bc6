/-
  Handout.TestFile.Encoding — the text of a test file: an assignment of a dict literal.
  `decode` takes any spelling of the literal and fills in what may be left out; a
  refusal says which field is wrong.
-/

import Handout.Literal.Parser
import Handout.Literal.Printer
import Handout.TestFile.Basic

namespace Handout

/-! ## Writing -/

def TestCase.toLiteral (c : TestCase) : Literal :=
  .dict [("code", .text c.code), ("hidden", .bool c.hidden), ("locked", .bool c.locked)]

def TestSuite.toLiteral (s : TestSuite) : Literal :=
  .dict [("cases", .list (s.cases.map TestCase.toLiteral)), ("scored", .bool s.scored),
    ("setup", .text s.setup), ("teardown", .text s.teardown), ("type", .text s.kind)]

namespace TestFile

def toLiteral (f : TestFile) : Literal :=
  .dict [("hidden", .bool f.hidden), ("name", .text f.name), ("points", .ofDouble f.points),
    ("suites", .list (f.suites.map TestSuite.toLiteral))]

def encode (f : TestFile) : String := String.ofList (Literal.renderAssignment f.toLiteral)

/-! ## Reading -/

/-- Why a text is not a test file. -/
inductive Refusal where
  | literal (text : String) (f : Literal.Failure)
  | notDict (what : String)
  | notList (key : String)
  | missing (key : String)
  | mistyped (key : String)
  deriving Inhabited

def Refusal.message : Refusal → String
  | .literal text f => f.message text.toList
  | .notDict what => what ++ " must be a dict"
  | .notList key => "\x60" ++ key ++ "\x60 must be a list"
  | .missing key => "missing or mistyped \x60" ++ key ++ "\x60"
  | .mistyped key => "mistyped \x60" ++ key ++ "\x60"

abbrev Entries := List (String × Literal)

def dictOf (what : String) : Literal → Except Refusal Entries
  | .dict es => .ok es
  | _ => .error (.notDict what)

/-- A list that may be left out. -/
def listOf (key : String) (es : Entries) : Except Refusal (List Literal) :=
  match Table.find? key es with
  | none => .ok []
  | some (.list vs) => .ok vs
  | some _ => .error (.notList key)

def required {α : Type} (key : String) (read : Literal → Option α) (es : Entries) : Except Refusal α :=
  match (Table.find? key es).bind read with
  | some v => .ok v
  | none => .error (.missing key)

def optional {α : Type} (key : String) (default : α) (read : Literal → Option α) (es : Entries) :
    Except Refusal α :=
  match Table.find? key es with
  | none => .ok default
  | some v =>
    match read v with
    | some a => .ok a
    | none => .error (.mistyped key)

def caseOf (v : Literal) : Except Refusal TestCase := do
  let es ← dictOf "case" v
  let code ← required "code" Literal.text? es
  let hidden ← optional "hidden" false Literal.bool? es
  let locked ← optional "locked" false Literal.bool? es
  return ⟨code, hidden, locked⟩

def suiteOf (v : Literal) : Except Refusal TestSuite := do
  let es ← dictOf "suite" v
  let cases ← (← listOf "cases" es).mapM caseOf
  let scored ← optional "scored" true Literal.bool? es
  let setup ← optional "setup" "" Literal.text? es
  let teardown ← optional "teardown" "" Literal.text? es
  let kind ← optional "type" "doctest" Literal.text? es
  return ⟨cases, scored, setup, teardown, kind⟩

def ofLiteral (v : Literal) : Except Refusal TestFile := do
  let es ← dictOf "test" v
  let suites ← (← listOf "suites" es).mapM suiteOf
  let name ← required "name" Literal.text? es
  let points ← optional "points" .zero Literal.number? es
  let hidden ← required "hidden" Literal.bool? es
  return ⟨name, points, hidden, suites⟩

def decode (text : String) : Except Refusal TestFile :=
  match Literal.parseAssignment text.toList with
  | .error f => .error (.literal text f)
  | .ok v => ofLiteral v

end TestFile
end Handout
