/-
  Handout.Yaml.Document — the value of a text that holds one document.

  An alias stands for the value of its anchor. Keys of a mapping differ, collections nest
  at most 128 deep along aliases too, so no anchor is used inside its own value, and the
  uses of aliases are limited by the size of the document.
-/

import Handout.Yaml.Core
import Handout.Yaml.Node

namespace Handout.Yaml

/-- A computation that may follow some more aliases. -/
abbrev Follow (α : Type) := StateT Nat Option α

def Follow.refuse {α : Type} : Follow α := fun _ => none

def Follow.lift {α : Type} (o : Option α) : Follow α := fun n => o.map fun a => (a, n)

/-- The node that an alias stands for; any other stands for itself. -/
def Node.target (anchored : List (Nat × Option Node)) : Node → Follow Node
  | .alias n => do
    let left ← get
    if left = 0 then Follow.refuse
    else
      set (left - 1)
      Follow.lift (anchored.lookup n).join
  | v => return v

def withTag (tag : Option String) (v : Yaml) : Yaml :=
  match tag.bind localTag? with
  | some t => .tagged t v
  | none => v

def scalarValue? (tag : Option String) (isPlain : Bool) (cs : List Char) : Option Yaml :=
  match tag with
  | none => if isPlain then plain? cs else some (.text (String.ofList cs))
  | some t => taggedScalar? t isPlain cs

/-- Whether a key occurs among entries. -/
def hasKey (k : Yaml) (es : List (Yaml × Yaml)) : Bool := es.any fun e => e.1.same k

/-- Whether no key occurs twice. -/
def keysDiffer : List (Yaml × Yaml) → Bool
  | [] => true
  | (k, _) :: rest => ! hasKey k rest && keysDiffer rest

/-- The value of a node that has room for collections of some depth. -/
def Node.value (anchored : List (Nat × Option Node)) (depth : Nat) (v : Node) : Follow Yaml := do
  match ← v.target anchored, depth with
  | .scalar tag isPlain cs, _ => Follow.lift (scalarValue? tag isPlain cs)
  | .seq tag items, d + 1 => return withTag tag (.seq (← items.mapM (Node.value anchored d)))
  | .map tag entries, d + 1 =>
    let es ← entries.mapM fun e => do return (← e.1.value anchored d, ← e.2.value anchored d)
    if keysDiffer es then return withTag tag (.map es)
    else Follow.refuse
  | _, _ => Follow.refuse

def maxDepth : Nat := 128

/-- How many aliases are followed for each node of a document. -/
def aliasesPerEvent : Nat := 100

/-- The value of a text, `none` when it is not one well-formed document. -/
def ofText? (cs : List Char) : Option Yaml := do
  let ts ← Token.ofText? cs
  let (root, s) ← (document (4 * ts.length + 8)).run ⟨ts, [], [], defaultHandles, 0⟩
  let (v, _) ← (root.value s.anchored maxDepth).run (s.events * aliasesPerEvent)
  return v

end Handout.Yaml
