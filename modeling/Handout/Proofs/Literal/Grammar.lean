/-
  Handout.Proofs.Literal.Grammar — which texts spell a literal, and what it is.

  The grammar says nothing about how a text is read: a text spells a value when it is put
  together in one of these ways. Between the tokens stands trivia, that is white space,
  comments with their line ends, and escaped line ends; only at the very end may a comment
  lack its line end (`Ending`). A number is a run of number characters whose value is
  that of the run without underscores, and a dict holds for each key the last of its values.

  Nothing here is greedy. What may follow a value begins with no character that could go on
  with it, so a run is as long as it can be wherever it stands in a whole text.
-/

import Handout.Proofs.Table
import Handout.Literal.Parser

namespace Handout.Literal

/-! ## Trivia -/

inductive Trivia : List Char → Prop
  | nil : Trivia []
  | blank {c : Char} {w : List Char} : Text.isBlank c = true → Trivia w → Trivia (c :: w)
  | comment {body w : List Char} : '\n' ∉ body → Trivia w → Trivia ('#' :: (body ++ '\n' :: w))
  | escapedLineEnd {w : List Char} : Trivia w → Trivia ('\\' :: '\n' :: w)

/-- What may stand behind a whole literal: trivia, and a comment that the text ends in. -/
inductive Ending : List Char → Prop
  | trivia {w : List Char} : Trivia w → Ending w
  | comment {w body : List Char} : Trivia w → '\n' ∉ body → Ending (w ++ '#' :: body)

/-! ## Texts -/

/-- The inside of a text in quotes, with what it spells: no line ends but escaped ones, the quote
    only behind a backslash, and as many hexadecimal digits as their letter asks for. -/
inductive SpellsBody (quote : Char) : List Char → List Char → Prop
  | nil : SpellsBody quote [] []
  | plain {c : Char} {s cs : List Char} :
      c ≠ '\n' → c ≠ quote → c ≠ '\\' → SpellsBody quote s cs → SpellsBody quote (c :: s) (c :: cs)
  | escape {e : Char} {s cs : List Char} :
      hexWidth? e = none → SpellsBody quote s cs → SpellsBody quote ('\\' :: e :: s) (simpleEscape e ++ cs)
  | hex {e d : Char} {ds s cs : List Char} {code : Nat} :
      hexWidth? e = some ds.length → Text.Hex.number? ds = some code → Text.Hex.charOfCode? code = some d →
      SpellsBody quote s cs → SpellsBody quote ('\\' :: e :: (ds ++ s)) (d :: cs)

/-- One or more texts in quotes of either kind, joined. -/
inductive SpellsTexts : List Char → List Char → Prop
  | one {quote : Char} {s cs : List Char} :
      quote = '\'' ∨ quote = '"' → SpellsBody quote s cs → SpellsTexts (quote :: (s ++ [quote])) cs
  | cons {quote : Char} {s w t cs ds : List Char} :
      quote = '\'' ∨ quote = '"' → SpellsBody quote s cs → Trivia w → SpellsTexts t ds →
      SpellsTexts (quote :: (s ++ quote :: (w ++ t))) (cs ++ ds)

/-! ## Numbers -/

/-- A run of number characters, the run without its underscores, and whether it has a point or an
    exponent mark. A sign stands behind a mark only. -/
inductive SpellsRun : List Char → List Char → Bool → Prop
  | nil : SpellsRun [] [] false
  | digit {c : Char} {s cs : List Char} {isFloat : Bool} :
      c.isDigit = true → SpellsRun s cs isFloat → SpellsRun (c :: s) (c :: cs) isFloat
  | underscore {s cs : List Char} {isFloat : Bool} : SpellsRun s cs isFloat → SpellsRun ('_' :: s) cs isFloat
  | point {s cs : List Char} {isFloat : Bool} : SpellsRun s cs isFloat → SpellsRun ('.' :: s) ('.' :: cs) true
  | mark {e : Char} {s cs : List Char} {isFloat : Bool} :
      e = 'e' ∨ e = 'E' → SpellsRun s cs isFloat → SpellsRun (e :: s) (e :: cs) true
  | signedMark {e sign : Char} {s cs : List Char} {isFloat : Bool} :
      e = 'e' ∨ e = 'E' → sign = '+' ∨ sign = '-' → SpellsRun s cs isFloat →
      SpellsRun (e :: sign :: s) (e :: sign :: cs) true

/-- A number: a run with a sign in front, or one that begins with a digit or a point. -/
inductive SpellsNumber : List Char → Literal → Prop
  | signed {sign : Char} {s cs : List Char} {isFloat : Bool} {v : Literal} :
      sign = '-' ∨ sign = '+' → SpellsRun s cs isFloat → ofRun (sign :: cs) isFloat = some v →
      SpellsNumber (sign :: s) v
  | unsigned {c : Char} {s cs : List Char} {isFloat : Bool} {v : Literal} :
      c.isDigit = true ∨ c = '.' → SpellsRun (c :: s) cs isFloat → ofRun cs isFloat = some v →
      SpellsNumber (c :: s) v

/-! ## Values -/

/-- The table that holds for each key the last value that it is given. -/
structure LastOf (es d : List (String × Literal)) : Prop where
  sorted : Table.Sorted d
  find : ∀ k, Table.find? k d = (es.reverse.find? fun e => e.1 = k).map Prod.snd

mutual

/-- A text spells a value. -/
inductive Spells : List Char → Literal → Prop
  | noneName : Spells "None".toList .null
  | trueName : Spells "True".toList (.bool true)
  | falseName : Spells "False".toList (.bool false)
  | text {t cs : List Char} : SpellsTexts t cs → Spells t (.text (String.ofList cs))
  | number {t : List Char} {v : Literal} : SpellsNumber t v → Spells t v
  | list {t : List Char} {vs : List Literal} : SpellsItems ']' t vs → Spells ('[' :: t) (.list vs)
  | empty {w : List Char} : Trivia w → Spells ('(' :: (w ++ [')'])) (.list [])
  | group {w t z : List Char} {v : Literal} :
      Trivia w → Spells t v → Trivia z → Spells ('(' :: (w ++ (t ++ (z ++ [')'])))) v
  | tuple {w t z u : List Char} {v : Literal} {vs : List Literal} :
      Trivia w → Spells t v → Trivia z → SpellsItems ')' u vs →
      Spells ('(' :: (w ++ (t ++ (z ++ ',' :: u)))) (.list (v :: vs))
  | dict {t : List Char} {es d : List (String × Literal)} :
      SpellsEntries t es → LastOf es d → Spells ('\x7b' :: t) (.dict d)

/-- Values up to and with `close`: none, one, or one with a comma and further ones behind it. -/
inductive SpellsItems : Char → List Char → List Literal → Prop
  | none {close : Char} {w : List Char} : Trivia w → SpellsItems close (w ++ [close]) []
  | one {close : Char} {w t z : List Char} {v : Literal} :
      Trivia w → Spells t v → Trivia z → SpellsItems close (w ++ (t ++ (z ++ [close]))) [v]
  | cons {close : Char} {w t z u : List Char} {v : Literal} {vs : List Literal} :
      Trivia w → Spells t v → Trivia z → SpellsItems close u vs →
      SpellsItems close (w ++ (t ++ (z ++ ',' :: u))) (v :: vs)

/-- Entries with texts for keys, up to and with the closing brace. -/
inductive SpellsEntries : List Char → List (String × Literal) → Prop
  | none {w : List Char} : Trivia w → SpellsEntries (w ++ ['\x7d']) []
  | one {w k z x t y : List Char} {key : String} {v : Literal} :
      Trivia w → Spells k (.text key) → Trivia z → Trivia x → Spells t v → Trivia y →
      SpellsEntries (w ++ (k ++ (z ++ ':' :: (x ++ (t ++ (y ++ ['\x7d'])))))) [(key, v)]
  | cons {w k z x t y u : List Char} {key : String} {v : Literal} {es : List (String × Literal)} :
      Trivia w → Spells k (.text key) → Trivia z → Trivia x → Spells t v → Trivia y → SpellsEntries u es →
      SpellsEntries (w ++ (k ++ (z ++ ':' :: (x ++ (t ++ (y ++ ',' :: u)))))) ((key, v) :: es)

end

/-- The whole text spells the value, with trivia around it. -/
def SpellsWhole (s : List Char) (v : Literal) : Prop :=
  ∃ w t w', s = w ++ (t ++ w') ∧ Trivia w ∧ Spells t v ∧ Ending w'

end Handout.Literal
