/-
  Handout.Yaml.Node — the nodes of a document as they are written, read off its tokens:
  tags are spelled in full, and an alias holds the number of its anchor.

  An anchor gets as its number how many names are anchored before it, and a name that is
  anchored again moves to its new number. Two anchors can so have one number; it then
  stands for the node that opens last, also where an alias comes before that node.
-/

import Handout.Yaml.Token

namespace Handout.Yaml

inductive Node where
  | scalar (tag : Option String) (isPlain : Bool) (text : List Char)
  | seq (tag : Option String) (items : List Node)
  | map (tag : Option String) (entries : List (Node × Node))
  | alias (number : Nat)
  deriving Inhabited

/-- What is left to read, the numbers of the anchored names, the anchored nodes with the
    last opened first (nothing for one still open), the tag handles, and how many nodes
    and ends of collections were read. -/
structure Reading where
  tokens : List Token
  numbers : List (List Char × Nat)
  anchored : List (Nat × Option Node)
  handles : List (List Char × List Char)
  events : Nat

abbrev Read (α : Type) := StateT Reading Option α

namespace Read

def peek : Read (Option Token) := do return (← get).tokens.head?

def next : Read Unit := modify fun s => { s with tokens := s.tokens.tail }

def count : Read Unit := modify fun s => { s with events := s.events + 1 }

def refuse {α : Type} : Read α := fun _ => none

/-- The next token, when it is this one. -/
def takeIf (t : Token) : Read Bool := do
  if (← peek) == some t then
    next
    return true
  return false

/-- A scalar, which is one event. -/
def scalar (tag : Option String) (isPlain : Bool) (text : List Char) : Read Node := do
  count
  return .scalar tag isPlain text

/-- An empty node. -/
def empty : Read Node := scalar none true []

end Read

open Read

/-! ## Properties of nodes -/

structure Properties where
  anchor : Option (List Char)
  tag : Option String

/-- The full tag of a handle and a suffix. -/
def fullTag (handle suffix : List Char) : Read String := do
  if handle = [] then return String.ofList suffix
  match (← get).handles.lookup handle with
  | some p => return String.ofList (p ++ suffix)
  | none => refuse

/-- An anchor and a tag, in either order, each at most once. -/
def properties : Read Properties := do
  match ← peek with
  | some (.anchor a) =>
    next
    match ← peek with
    | some (.tag h s) =>
      next
      return ⟨some a, some (← fullTag h s)⟩
    | _ => return ⟨some a, none⟩
  | some (.tag h s) =>
    next
    match ← peek with
    | some (.anchor a) =>
      next
      return ⟨some a, some (← fullTag h s)⟩
    | _ => return ⟨none, some (← fullTag h s)⟩
  | _ => return ⟨none, none⟩

/-- Opens an anchor, whose number is how many names have one already. Answers how many
    anchors were opened before it. -/
def openAnchor (name : Option (List Char)) : Read Nat := do
  let s ← get
  match name with
  | none => pure ()
  | some a =>
    let number := s.numbers.length
    let others := s.numbers.filter fun e => e.1 ≠ a
    set { s with numbers := (a, number) :: others, anchored := (number, none) :: s.anchored }
  return s.anchored.length

/-- Gives the anchor that was opened after `before` others its node. -/
def closeAnchor (name : Option (List Char)) (before : Nat) (v : Node) : Read Unit :=
  if name.isNone then pure ()
  else modify fun s =>
    { s with anchored := s.anchored.modify (s.anchored.length - 1 - before) fun e => (e.1, some v) }

/-- An alias of a name that is anchored before it. -/
def aliasOf (name : List Char) : Read Node := do
  count
  match (← get).numbers.lookup name with
  | some n => return .alias n
  | none => refuse

/-- The tag of a scalar that is written out: `!` alone says nothing. -/
def writtenTag (tag : Option String) : Option String := tag.filter (· != "!")

/-! ## Collections -/

/-- A collection of some items, with its end counted. -/
def ended (v : Node) : Read Node := do
  count
  return v

/-- Tokens before which a node in a block mapping is empty. -/
def endsBlockNode : Option Token → Bool
  | some .key | some .value | some .blockEnd => true
  | _ => false

/-- Tokens before which a node in a flow collection with this end is empty. -/
def endsFlowNode (close : Token) (t : Option Token) : Bool :=
  t == some .value || t == some .flowEntry || t == some close

mutual

/-- A node. A sequence without indentation of its own may stand only in a block mapping. -/
def node : Nat → (block indentless : Bool) → Read Node
  | 0, _, _ => refuse
  | n + 1, block, indentless => do
    match ← peek with
    | some (.alias a) =>
      next
      aliasOf a
    | _ =>
      let p ← properties
      let before ← openAnchor p.anchor
      let v ← match ← peek with
        | some .blockEntry =>
          if indentless then do
            count
            ended (.seq p.tag (← indentlessEntries n))
          else bare p
        | some (.scalar isPlain cs) => do
          next
          scalar (writtenTag p.tag) isPlain cs
        | some .flowSeqStart => do
          count
          next
          ended (.seq p.tag (← flowEntries n true))
        | some .flowMapStart => do
          count
          next
          ended (.map p.tag (← flowPairs n true))
        | some .blockSeqStart =>
          if block then do
            count
            next
            ended (.seq p.tag (← blockEntries n))
          else bare p
        | some .blockMapStart =>
          if block then do
            count
            next
            ended (.map p.tag (← blockPairs n))
          else bare p
        | _ => bare p
      closeAnchor p.anchor before v
      return v

/-- Properties alone make an empty plain scalar; without any there is no node. -/
def bare (p : Properties) : Read Node :=
  if p.anchor.isSome || p.tag.isSome then scalar p.tag true [] else refuse

def blockEntries : Nat → Read (List Node)
  | 0 => refuse
  | n + 1 => do
    if ← takeIf .blockEntry then
      let t ← peek
      let v ← if t == some .blockEntry || t == some .blockEnd then empty else node n true false
      return v :: (← blockEntries n)
    else if ← takeIf .blockEnd then return []
    else refuse

def indentlessEntries : Nat → Read (List Node)
  | 0 => refuse
  | n + 1 => do
    if ← takeIf .blockEntry then
      let t ← peek
      let v ← if t == some .blockEntry || endsBlockNode t then empty else node n true false
      return v :: (← indentlessEntries n)
    else return []

def blockPairs : Nat → Read (List (Node × Node))
  | 0 => refuse
  | n + 1 => do
    if ← takeIf .key then
      let k ← if endsBlockNode (← peek) then empty else node n true true
      let v ←
        if ← takeIf .value then
          if endsBlockNode (← peek) then empty else node n true true
        else empty
      return (k, v) :: (← blockPairs n)
    else if ← takeIf .blockEnd then return []
    else refuse

def flowEntries : Nat → (isFirst : Bool) → Read (List Node)
  | 0, _ => refuse
  | n + 1, isFirst => do
    if ← takeIf .flowSeqEnd then return []
    if ¬ isFirst then
      if ¬ (← takeIf .flowEntry) then refuse
      if ← takeIf .flowSeqEnd then return []
    let v ←
      if ← takeIf .key then flowPair n
      else node n false false
    return v :: (← flowEntries n false)

/-- A mapping of one entry inside a flow sequence. Where its key is empty, the token that
    shows this is taken with it. -/
def flowPair : Nat → Read Node
  | 0 => refuse
  | n + 1 => do
    count
    let k ←
      if endsFlowNode .flowSeqEnd (← peek) then do
        next
        empty
      else node n false false
    let v ←
      if ← takeIf .value then
        let t ← peek
        if t == some .flowEntry || t == some .flowSeqEnd then empty else node n false false
      else empty
    ended (.map none [(k, v)])

def flowPairs : Nat → (isFirst : Bool) → Read (List (Node × Node))
  | 0, _ => refuse
  | n + 1, isFirst => do
    if ← takeIf .flowMapEnd then return []
    if ¬ isFirst then
      if ¬ (← takeIf .flowEntry) then refuse
      if ← takeIf .flowMapEnd then return []
    if ← takeIf .key then
      let k ← if endsFlowNode .flowMapEnd (← peek) then empty else node n false false
      let v ←
        if ← takeIf .value then
          let t ← peek
          if t == some .flowEntry || t == some .flowMapEnd then empty else node n false false
        else empty
      return (k, v) :: (← flowPairs n false)
    else
      let k ← node n false false
      let v ← empty
      return (k, v) :: (← flowPairs n false)

end

/-! ## Directives -/

/-- The directives before an explicit document: one version of the 1.1 or 1.2 kind at most,
    and no handle twice. -/
def directives (fuel : Nat) (versions : Nat) (given : List (List Char × List Char)) :
    Read (List (List Char × List Char)) :=
  match fuel with
  | 0 => refuse
  | n + 1 => do
    match ← peek with
    | some (.version major minor) =>
      if versions = 0 ∧ major = 1 ∧ (minor = 1 ∨ minor = 2) then
        next
        directives n 1 given
      else refuse
    | some (.tagHandle h p) =>
      if (given.lookup h).isSome then refuse
      else
        next
        directives n versions ((h, p) :: given)
    | _ => return given

def defaultHandles : List (List Char × List Char) :=
  [(['!'], ['!']), (['!', '!'], "tag:yaml.org,2002:".toList)]

def startsContent : Option Token → Bool
  | none | some (.version ..) | some (.tagHandle ..) | some .documentStart | some .documentEnd => false
  | _ => true

/-- The root of the only document. No document at all is an empty node. -/
def document (fuel : Nat) : Read Node := do
  match ← peek with
  | none => empty
  | some t =>
    let isExplicit := match t with
      | .version .. | .tagHandle .. | .documentStart => true
      | _ => false
    if isExplicit then
      let given ← directives fuel 0 []
      modify fun s => { s with handles := given ++ defaultHandles.filter fun d => (given.lookup d.1).isNone }
      if ¬ (← takeIf .documentStart) then refuse
    let root ←
      if isExplicit && ! startsContent (← peek) then empty
      else node fuel true false
    if (← get).tokens.any (· != .documentEnd) then refuse
    return root

end Handout.Yaml
