/-
  Handout.Json.Reader — from the shape of a JSON text to values and records.

  `Raw.toJson` judges a value: every number has to be within the doubles, every text free
  of lone surrogates, and values may nest 127 deep. `Raw.record` reads the fields of a
  record from an object or from an array in the order of the fields; a field that
  occurs twice or an array that is too long is refused, and what an object holds
  beside the fields is passed over.
-/

import Handout.Json.Token

namespace Handout.Json

/-- How many containers may be open at once, and one more. -/
def depthLimit : Nat := 128

/-- The depth left inside a container, `none` when it may not be opened. -/
def inside? (depth : Nat) : Option Nat := if 1 < depth then some (depth - 1) else none

def textOf? (ps : List Piece) : Option String := (ofPieces ps).map String.ofList

namespace Raw

mutual

/-- The value of a shape at a depth. -/
def toJson (depth : Nat) : Raw → Option Json
  | .null => some .null
  | .bool b => some (.bool b)
  | .number t => t.value?.map Json.number
  | .text ps => (textOf? ps).map Json.text
  | .array vs =>
    match inside? depth with
    | none => none
    | some d => (toJsons d vs).map Json.array
  | .object ms =>
    match inside? depth with
    | none => none
    | some d => (toMembers d ms).map fun es => .object (Table.ofEntries es)

def toJsons (depth : Nat) : List Raw → Option (List Json)
  | [] => some []
  | v :: rest => do
    let j ← toJson depth v
    let js ← toJsons depth rest
    return j :: js

def toMembers (depth : Nat) : List (List Piece × Raw) → Option (List (String × Json))
  | [] => some []
  | (ps, v) :: rest => do
    let name ← textOf? ps
    let j ← toJson depth v
    let es ← toMembers depth rest
    return (name, j) :: es

end

/-! ## Fields -/

/-- A reader of one field: the depth left, and what stands there. -/
abbrev FieldReader (α : Type) := Nat → Raw → Option α

def asText : FieldReader String := fun _ r =>
  match r with
  | .text ps => textOf? ps
  | _ => none

def asBool : FieldReader Bool := fun _ r =>
  match r with
  | .bool b => some b
  | _ => none

/-- A natural number of 32 bits. -/
def asWord : FieldReader Nat := fun _ r =>
  match r with
  | .number t =>
    match t.value? with
    | some (.int n) => if 0 ≤ n ∧ n < 4294967296 then some n.toNat else none
    | _ => none
  | _ => none

def asJson : FieldReader Json := fun depth r => r.toJson depth

/-- Nothing for `null`. -/
def orNull {α : Type} (f : FieldReader α) : FieldReader (Option α) := fun depth r =>
  match r with
  | .null => some none
  | r => (f depth r).map some

def asList {α : Type} (f : FieldReader α) : FieldReader (List α) := fun depth r =>
  match r with
  | .array vs => do vs.mapM (f (← inside? depth))
  | _ => none

/-- The members of an object of any names. -/
def asMembers : FieldReader (List (String × Json)) := fun depth r =>
  match r with
  | .object ms => do return Table.ofEntries (← toMembers (← inside? depth) ms)
  | _ => none

/-- One of some words, alone or as the only name of an object that holds `null`. -/
def asWordOf {α : Type} (read : String → Option α) : FieldReader α := fun depth r =>
  match r with
  | .text ps => (textOf? ps).bind read
  | .object [(ps, .null)] => do
    let _ ← inside? depth
    (textOf? ps).bind read
  | _ => none

/-! ## Records -/

/-- The fields found, in the order of the names, and the depth left inside the record. -/
structure Found where
  depth : Nat
  fields : List (String × Raw)

/-- The members whose names are fields; a name twice is refused. -/
def pick (names : List String) : List (List Piece × Raw) → Option (List (String × Raw))
  | [] => some []
  | (ps, v) :: rest => do
    let name ← textOf? ps
    let es ← pick names rest
    if names.contains name then
      if es.any (·.1 == name) then none else some ((name, v) :: es)
    else some es

/-- The fields of a record. -/
def record (names : List String) : FieldReader Found := fun depth r =>
  match r with
  | .object ms => do
    let d ← inside? depth
    return ⟨d, ← pick names ms⟩
  | .array vs => do
    let d ← inside? depth
    if vs.length ≤ names.length then some ⟨d, names.zip vs⟩ else none
  | _ => none

/-- A field that has to be there. -/
def Found.required {α : Type} (name : String) (f : FieldReader α) (r : Found) : Option α := do
  f r.depth (← r.fields.lookup name)

/-- A field that may be left out. -/
def Found.optional {α : Type} (name : String) (default : α) (f : FieldReader α) (r : Found) : Option α :=
  match r.fields.lookup name with
  | none => some default
  | some v => f r.depth v

end Raw

/-- Reads a text with a reader of its whole value. -/
def read? {α : Type} (f : Raw.FieldReader α) (text : List Char) : Option α := do
  f depthLimit (← Raw.parse? text)

/-- Reads any JSON text. -/
def parse? (text : String) : Option Json := read? Raw.asJson text.toList

end Handout.Json
