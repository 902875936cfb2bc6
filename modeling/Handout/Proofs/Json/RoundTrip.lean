/-
  Handout.Proofs.Json.RoundTrip — a JSON value that is written is read in its own shape.

  The readers go through what was written constructor by constructor (`value_write`): what
  is taken off the text is the shape of the value, whatever the margins. What the shape
  stands for is then a matter of the value alone (`toJson_shape`): a value that nests as
  deep as it may and whose objects are tables is read back where its numbers are. All that
  a reader answers nests so and has such objects (`fits_of_toJson`), and a value that is
  read back has no number that is not (`readsBack_of_toJson`).
-/

import Handout.Proofs.Json.Reader
import Handout.Proofs.Json.Token
import Handout.Proofs.Table

namespace Handout.Json

/-! ## The shape of a value -/

/-- What a number is written as: its token, or `null` for a float that is not finite. -/
def Number.shape (n : Number) : Raw :=
  match numeral? n.write with
  | some (t, _) => .number t
  | none => .null

mutual

/-- What a value is written as. -/
def shape : Json → Raw
  | .null => .null
  | .bool b => .bool b
  | .number n => n.shape
  | .text s => .text (piecesOf s)
  | .array vs => .array (shapes vs)
  | .object ms => .object (memberShapes ms)

def shapes : List Json → List Raw
  | [] => []
  | v :: rest => shape v :: shapes rest

def memberShapes : List (String × Json) → List (List Piece × Raw)
  | [] => []
  | (k, v) :: rest => (piecesOf k, shape v) :: memberShapes rest

end

/-! ## Starts -/

/-- A character that begins a value. -/
structure BeginsValue (c : Char) : Prop where
  notSpace : isSpace c = false
  notClosing : c ≠ ']'

theorem beginsValue_of_isDigit {c : Char} (h : c.isDigit = true) : BeginsValue c := by
  have hne : ∀ d : Char, d.isDigit = false → c ≠ d := fun d hd => Decimal.ne_of_isDigit h hd
  exact ⟨by simp [isSpace, hne ' ' rfl, hne '\n' rfl, hne '\t' rfl, hne '\r' rfl], hne ']' rfl⟩

theorem head_of_isToken {cs : List Char} {t : Numeral} (h : IsToken cs t) :
    ∃ c r, cs = c :: r ∧ (c = '-' ∨ c.isDigit = true) := by
  have htoken := h [] .nothing
  rw [List.append_nil] at htoken
  exact head_of_numeral? htoken

theorem Number.written (n : Number) :
    (∃ t, IsToken n.write t ∧ n.shape = .number t) ∨ (n.write = "null".toList ∧ n.shape = .null) := by
  have hshape : ∀ {t}, IsToken n.write t → n.shape = .number t := by
    intro t ht
    have htoken := ht [] .nothing
    rw [List.append_nil] at htoken
    rw [Number.shape, htoken]
  cases n with
  | int n => exact .inl ⟨_, isToken_int n, hshape (isToken_int n)⟩
  | float d =>
    by_cases hd : d.isFinite = true
    · obtain ⟨t, ht⟩ := isToken_float hd
      have hwrite : (Number.float d).write = d.write floatLayout [] [] := if_pos hd
      rw [← hwrite] at ht
      exact .inl ⟨t, ht, hshape ht⟩
    · have hwrite : (Number.float d).write = "null".toList := if_neg hd
      refine .inr ⟨hwrite, ?_⟩
      rw [Number.shape, hwrite]
      rfl

section

variable (width depth : Nat)

theorem write_head (v : Json) : ∃ c r, write width depth v = c :: r ∧ BeginsValue c := by
  cases v with
  | null => exact ⟨'n', _, rfl, by decide, by decide⟩
  | bool b =>
    cases b with
    | false => exact ⟨'f', _, rfl, by decide, by decide⟩
    | true => exact ⟨'t', _, rfl, by decide, by decide⟩
  | number n =>
    rw [write]
    rcases n.written with ⟨t, ht, -⟩ | ⟨hwrite, -⟩
    · obtain ⟨c, r, hcs, rfl | hc⟩ := head_of_isToken ht
      · exact ⟨'-', r, hcs, by decide, by decide⟩
      · exact ⟨c, r, hcs, beginsValue_of_isDigit hc⟩
    · exact ⟨'n', _, hwrite, by decide, by decide⟩
  | text s => exact ⟨'"', _, rfl, by decide, by decide⟩
  | array vs => cases vs <;> exact ⟨'[', _, rfl, by decide, by decide⟩
  | object ms => cases ms <;> exact ⟨'\x7b', _, rfl, by decide, by decide⟩

theorem skipSpace_write (v : Json) (rest : List Char) :
    skipSpace (write width depth v ++ rest) = write width depth v ++ rest := by
  obtain ⟨c, r, hwrite, hc⟩ := write_head width depth v
  rw [hwrite, List.cons_append, skipSpace_start hc.notSpace]

/-- A new line and its margin are skipped. -/
theorem skipSpace_newline (s : List Char) : skipSpace ('\n' :: (margin width depth ++ s)) = skipSpace s := by
  rw [skipSpace_space (by decide)]
  exact skipSpace_blanks _ s

theorem skipSpace_line {c : Char} (h : isSpace c = false) (s : List Char) :
    skipSpace ('\n' :: (margin width depth ++ c :: s)) = c :: s := by
  rw [skipSpace_newline, skipSpace_start h]

theorem skipSpace_item (v : Json) (s : List Char) :
    skipSpace ('\n' :: (margin width depth ++ (write width depth v ++ s))) = write width depth v ++ s := by
  rw [skipSpace_newline, skipSpace_write]

theorem skipSpace_memberValue (v : Json) (s : List Char) :
    skipSpace (' ' :: (write width depth v ++ s)) = write width depth v ++ s := by
  rw [skipSpace_space (by decide), skipSpace_write]

theorem writeText_append (s : String) (rest : List Char) :
    writeText s ++ rest = '"' :: (s.toList.flatMap escapeChar ++ '"' :: rest) := by
  simp [writeText]

/-! ## Values -/

section

variable {s rest : List Char}

theorem value_number {n : Number} (hs : skipSpace s = n.write ++ rest) (hrest : Follows rest) :
    Took (value s) n.shape rest := by
  rcases n.written with ⟨t, ht, hshape⟩ | ⟨hwrite, hshape⟩ <;> rw [hshape]
  · obtain ⟨c, r, hcs, hc⟩ := head_of_isToken ht
    have htoken := ht rest hrest
    rw [hcs] at hs htoken
    have hne : ∀ d : Char, d ≠ '-' → d.isDigit = false → c ≠ d := by
      rintro d hminus hdigit rfl
      rcases hc with hc | hc
      · exact hminus hc
      · rw [hdigit] at hc
        cases hc
    exact value_scalar hs (hne '[' (by decide) rfl) (hne '\x7b' (by decide) rfl) (scalar_number hc htoken)
  · rw [hwrite] at hs
    exact value_scalar hs (by decide) (by decide) (scalar_null rest)

theorem write_array_cons (v : Json) (vs : List Json) (rest : List Char) :
    write width depth (.array (v :: vs)) ++ rest =
      '[' :: '\n' :: (margin width (depth + 1) ++ (write width (depth + 1) v ++
        (writeItems width depth vs ++ '\n' :: (margin width depth ++ ']' :: rest)))) := by
  simp [write]

theorem write_object_cons (k : String) (v : Json) (ms : List (String × Json)) (rest : List Char) :
    write width depth (.object ((k, v) :: ms)) ++ rest =
      '\x7b' :: '\n' :: (margin width (depth + 1) ++ (writeText k ++ ':' :: ' ' :: (write width (depth + 1) v ++
        (writeMembers width depth ms ++ '\n' :: (margin width depth ++ '\x7d' :: rest))))) := by
  simp [write]

theorem writeItems_cons (v : Json) (vs : List Json) (rest : List Char) :
    writeItems width depth (v :: vs) ++ rest =
      ',' :: '\n' :: (margin width (depth + 1) ++ (write width (depth + 1) v ++ (writeItems width depth vs ++ rest))) := by
  simp [writeItems]

theorem writeMembers_cons (k : String) (v : Json) (ms : List (String × Json)) (rest : List Char) :
    writeMembers width depth ((k, v) :: ms) ++ rest =
      ',' :: '\n' :: (margin width (depth + 1) ++ (writeText k ++ ':' :: ' ' :: (write width (depth + 1) v ++
        (writeMembers width depth ms ++ rest)))) := by
  simp [writeMembers]

theorem follows_items (vs : List Json) (rest : List Char) : Follows (writeItems width depth vs ++ '\n' :: rest) := by
  cases vs with
  | nil => exact .lineEnd rest
  | cons v vs =>
    rw [writeItems_cons]
    exact .comma _

theorem follows_members (ms : List (String × Json)) (rest : List Char) :
    Follows (writeMembers width depth ms ++ '\n' :: rest) := by
  cases ms with
  | nil => exact .lineEnd rest
  | cons e ms =>
    obtain ⟨k, v⟩ := e
    rw [writeMembers_cons]
    exact .comma _

end

end

mutual

/-- What is read from a value that is written is its shape, and no more. -/
theorem value_write (width depth : Nat) :
    ∀ (v : Json) {s rest : List Char}, skipSpace s = write width depth v ++ rest → Follows rest →
      Took (value s) v.shape rest
  | .null, _, rest, hs, _ => value_scalar hs (by decide) (by decide) (scalar_null rest)
  | .bool true, _, rest, hs, _ => value_scalar hs (by decide) (by decide) (scalar_true rest)
  | .bool false, _, rest, hs, _ => value_scalar hs (by decide) (by decide) (scalar_false rest)
  | .number _, _, _, hs, hrest => value_number hs hrest
  | .text t, _, rest, hs, _ =>
    value_scalar (hs.trans (writeText_append t rest)) (by decide) (by decide) (scalar_text (pieces_escaped t.toList rest))
  | .array [], _, _, hs, _ => value_array hs (items_close (skipSpace_start (by decide) _))
  | .array (v :: vs), _, rest, hs, _ => by
    rw [write_array_cons] at hs
    have hvalue := value_write width (depth + 1) v (skipSpace_item width (depth + 1) v _)
      (follows_items width depth vs (margin width depth ++ ']' :: rest))
    obtain ⟨c, t, hwrite, hc⟩ := write_head width (depth + 1) v
    have hskip := skipSpace_item width (depth + 1) v
      (writeItems width depth vs ++ '\n' :: (margin width depth ++ ']' :: rest))
    rw [hwrite, List.cons_append] at hskip
    rw [hwrite, List.cons_append] at hvalue
    rw [hwrite, List.cons_append] at hs
    exact value_array hs (items_more hskip hc.notClosing (moreItems_write width depth vs hvalue))
  | .object [], _, _, hs, _ => value_object hs (members_close (skipSpace_start (by decide) _))
  | .object ((k, v) :: ms), _, rest, hs, _ => by
    rw [write_object_cons, writeText_append] at hs
    have hvalue := value_write width (depth + 1) v (skipSpace_memberValue width (depth + 1) v _)
      (follows_members width depth ms (margin width depth ++ '\x7d' :: rest))
    have hskip := fun t => skipSpace_line width (depth + 1) (by decide : isSpace '"' = false) t
    exact value_object hs (members_more (hskip _) (by decide) (moreMembers_write width depth ms (hskip _) hvalue))

theorem moreItems_write (width depth : Nat) :
    ∀ (vs : List Json) {v : Raw} {s rest : List Char},
      Took (value s) v (writeItems width depth vs ++ '\n' :: (margin width depth ++ ']' :: rest)) →
        Took (moreItems s) (v :: shapes vs) rest
  | [], _, _, _, hv => moreItems_one hv (skipSpace_line width depth (by decide) _)
  | v :: vs, _, _, rest, hv => by
    rw [writeItems_cons] at hv
    have hvalue := value_write width (depth + 1) v (skipSpace_item width (depth + 1) v _)
      (follows_items width depth vs (margin width depth ++ ']' :: rest))
    exact moreItems_cons hv (skipSpace_start (by decide) _) (moreItems_write width depth vs hvalue)

/-- The first member has been read as far as its value, and the others follow. -/
theorem moreMembers_write (width depth : Nat) :
    ∀ (ms : List (String × Json)) {k : String} {v : Raw} {s x rest : List Char},
      skipSpace s = '"' :: (k.toList.flatMap escapeChar ++ '"' :: ':' :: x) →
        Took (value x) v (writeMembers width depth ms ++ '\n' :: (margin width depth ++ '\x7d' :: rest)) →
          Took (moreMembers s) ((piecesOf k, v) :: memberShapes ms) rest
  | [], k, _, _, _, _, hs, hv =>
    moreMembers_one hs (pieces_escaped k.toList _) (skipSpace_start (by decide) _) hv
      (skipSpace_line width depth (by decide) _)
  | (k', v) :: ms, k, _, _, _, rest, hs, hv => by
    rw [writeMembers_cons, writeText_append] at hv
    have hvalue := value_write width (depth + 1) v (skipSpace_memberValue width (depth + 1) v _)
      (follows_members width depth ms (margin width depth ++ '\x7d' :: rest))
    exact moreMembers_cons hs (pieces_escaped k.toList _) (skipSpace_start (by decide) _) hv
      (skipSpace_start (by decide) _)
      (moreMembers_write width depth ms (skipSpace_line width (depth + 1) (by decide) _) hvalue)

end

/-- A text that is a value as it is written, and at most a line end after it. -/
theorem parse?_write (width : Nat) (v : Json) {rest : List Char} (h : rest = [] ∨ rest = ['\n']) :
    Raw.parse? (write width 0 v ++ rest) = some v.shape := by
  have hfollows : Follows rest := by rcases h with rfl | rfl <;> constructor
  have hskip : skipSpace rest = [] := by rcases h with rfl | rfl <;> rfl
  exact parse?_of_took (value_write width 0 v (skipSpace_write width 0 v rest) hfollows) hskip

/-! ## Properties of all nodes -/

mutual

/-- Every value in a value, itself included, is one that `p` holds of at the depth where it
    stands. -/
def All (p : Nat → Json → Prop) (depth : Nat) : Json → Prop
  | .array vs => p depth (.array vs) ∧ AllItems p (depth - 1) vs
  | .object ms => p depth (.object ms) ∧ AllMembers p (depth - 1) ms
  | v => p depth v

def AllItems (p : Nat → Json → Prop) (depth : Nat) : List Json → Prop
  | [] => True
  | v :: rest => All p depth v ∧ AllItems p depth rest

def AllMembers (p : Nat → Json → Prop) (depth : Nat) : List (String × Json) → Prop
  | [] => True
  | (_, v) :: rest => All p depth v ∧ AllMembers p depth rest

end

theorem allItems_iff {p : Nat → Json → Prop} {depth : Nat} {vs : List Json} :
    AllItems p depth vs ↔ ∀ v ∈ vs, v.All p depth := by
  induction vs with
  | nil => simp [AllItems]
  | cons v vs ih => simp [AllItems, ih]

theorem allMembers_iff {p : Nat → Json → Prop} {depth : Nat} {ms : List (String × Json)} :
    AllMembers p depth ms ↔ ∀ e ∈ ms, e.2.All p depth := by
  induction ms with
  | nil => simp [AllMembers]
  | cons e ms ih =>
    obtain ⟨k, v⟩ := e
    simp only [AllMembers, ih, List.forall_mem_cons]

/-- A value that a reader may answer at a depth: an integer of 64 bits, a container that may be
    opened there, an object that is a table. -/
def Fits (depth : Nat) : Json → Prop
  | .number (.int n) => IsInt64 n
  | .array _ => 1 < depth
  | .object ms => 1 < depth ∧ Table.Sorted ms
  | _ => True

/-- A number that is read back from its token. -/
def Number.ReadsBack (n : Number) : Prop := ∀ depth, n.shape.toJson depth = some (.number n)

def NumberReadsBack (_ : Nat) : Json → Prop
  | .number n => n.ReadsBack
  | _ => True

/-! ## What a reader answers -/

theorem inside?_of_lt {depth : Nat} (h : 1 < depth) : inside? depth = some (depth - 1) := if_pos h

theorem inside?_eq_some {depth d : Nat} (h : inside? depth = some d) : 1 < depth ∧ d = depth - 1 := by
  unfold inside? at h
  split at h
  · rename_i hlt
    cases h
    exact ⟨hlt, rfl⟩
  · cases h

open Raw in
theorem toMembers_cons {depth : Nat} {ps : List Piece} {r : Raw} {ms : List (List Piece × Raw)}
    {es : List (String × Json)} :
    toMembers depth ((ps, r) :: ms) = some es ↔
      ∃ name v rest, textOf? ps = some name ∧ r.toJson depth = some v ∧ toMembers depth ms = some rest ∧
        es = (name, v) :: rest := by
  simp only [toMembers, Option.bind_eq_bind, Option.bind_eq_some_iff, pure, Option.some.injEq]
  constructor
  · rintro ⟨name, hname, v, hv, rest, hrest, rfl⟩
    exact ⟨name, v, rest, hname, hv, hrest, rfl⟩
  · rintro ⟨name, v, rest, hname, hv, hrest, rfl⟩
    exact ⟨name, hname, v, hv, rest, hrest, rfl⟩

open Raw in
theorem toJsons_cons {depth : Nat} {r : Raw} {rs : List Raw} {vs : List Json} :
    toJsons depth (r :: rs) = some vs ↔
      ∃ v rest, r.toJson depth = some v ∧ toJsons depth rs = some rest ∧ vs = v :: rest := by
  simp only [toJsons, Option.bind_eq_bind, Option.bind_eq_some_iff, pure, Option.some.injEq]
  constructor
  · rintro ⟨v, hv, rest, hrest, rfl⟩
    exact ⟨v, rest, hv, hrest, rfl⟩
  · rintro ⟨v, rest, hv, hrest, rfl⟩
    exact ⟨v, hv, rest, hrest, rfl⟩

mutual

theorem fits_of_toJson : ∀ (r : Raw) {depth : Nat} {v : Json}, r.toJson depth = some v → v.All Fits depth
  | .null, _, _, h => by
    cases h
    trivial
  | .bool _, _, _, h => by
    cases h
    trivial
  | .number t, _, _, h => by
    obtain ⟨n, hn, rfl⟩ := Option.map_eq_some_iff.mp h
    cases n with
    | int n => exact isInt64_of_value? hn
    | float d => trivial
  | .text _, _, _, h => by
    obtain ⟨s, -, rfl⟩ := Option.map_eq_some_iff.mp h
    trivial
  | .array rs, depth, _, h => by
    rw [Raw.toJson] at h
    split at h
    · cases h
    · rename_i d hd
      obtain ⟨hlt, rfl⟩ := inside?_eq_some hd
      obtain ⟨vs, hvs, rfl⟩ := Option.map_eq_some_iff.mp h
      exact ⟨hlt, fits_of_toJsons rs hvs⟩
  | .object ms, depth, _, h => by
    rw [Raw.toJson] at h
    split at h
    · cases h
    · rename_i d hd
      obtain ⟨hlt, rfl⟩ := inside?_eq_some hd
      obtain ⟨es, hes, rfl⟩ := Option.map_eq_some_iff.mp h
      have hall := allMembers_iff.mp (fits_of_toMembers ms hes)
      exact ⟨⟨hlt, Table.sorted_ofEntries es⟩, allMembers_iff.mpr fun e he => hall e (Table.mem_of_mem_ofEntries he)⟩

theorem fits_of_toJsons : ∀ (rs : List Raw) {depth : Nat} {vs : List Json}, Raw.toJsons depth rs = some vs →
    AllItems Fits depth vs
  | [], _, _, h => by
    cases h
    trivial
  | r :: rs, _, _, h => by
    obtain ⟨v, rest, hv, hrest, rfl⟩ := toJsons_cons.mp h
    exact ⟨fits_of_toJson r hv, fits_of_toJsons rs hrest⟩

theorem fits_of_toMembers : ∀ (ms : List (List Piece × Raw)) {depth : Nat} {es : List (String × Json)},
    Raw.toMembers depth ms = some es → AllMembers Fits depth es
  | [], _, _, h => by
    cases h
    trivial
  | (_, r) :: ms, _, _, h => by
    obtain ⟨name, v, rest, -, hv, hrest, rfl⟩ := toMembers_cons.mp h
    exact ⟨fits_of_toJson r hv, fits_of_toMembers ms hrest⟩

end

/-! ## Shapes -/

mutual

/-- Where the numbers are read back, the value is. The depth is of no matter to a number. -/
theorem toJson_shape : ∀ (v : Json) {depth d : Nat}, v.All Fits depth → v.All NumberReadsBack d →
    v.shape.toJson depth = some v
  | .null, _, _, _, _ => rfl
  | .bool _, _, _, _, _ => rfl
  | .number _, depth, _, _, hn => hn depth
  | .text s, _, _, _, _ => by rw [shape, Raw.toJson, textOf?_pieces, Option.map_some]
  | .array vs, _, _, hf, hn => by
    rw [shape, Raw.toJson, inside?_of_lt hf.1]
    simp only [toJsons_shapes vs hf.2 hn.2, Option.map_some]
  | .object ms, _, _, hf, hn => by
    rw [shape, Raw.toJson, inside?_of_lt hf.1.1]
    simp only [toMembers_shapes ms hf.2 hn.2, Option.map_some, Table.ofEntries_eq_self hf.1.2]

theorem toJsons_shapes : ∀ (vs : List Json) {depth d : Nat}, AllItems Fits depth vs → AllItems NumberReadsBack d vs →
    Raw.toJsons depth (shapes vs) = some vs
  | [], _, _, _, _ => rfl
  | v :: vs, _, _, hf, hn => toJsons_cons.mpr ⟨v, vs, toJson_shape v hf.1 hn.1, toJsons_shapes vs hf.2 hn.2, rfl⟩

theorem toMembers_shapes : ∀ (ms : List (String × Json)) {depth d : Nat}, AllMembers Fits depth ms →
    AllMembers NumberReadsBack d ms → Raw.toMembers depth (memberShapes ms) = some ms
  | [], _, _, _, _ => rfl
  | (k, v) :: ms, _, _, hf, hn =>
    toMembers_cons.mpr ⟨k, v, ms, textOf?_pieces k, toJson_shape v hf.1 hn.1, toMembers_shapes ms hf.2 hn.2, rfl⟩

end

theorem keys_of_toMembers : ∀ {ms es : List (String × Json)} {depth : Nat},
    Raw.toMembers depth (memberShapes ms) = some es → Table.keys es = Table.keys ms
  | [], _, _, h => by
    cases h
    rfl
  | (k, v) :: ms, _, _, h => by
    obtain ⟨name, v', rest, hname, -, hrest, rfl⟩ := toMembers_cons.mp h
    rw [textOf?_pieces] at hname
    cases hname
    exact congrArg (k :: ·) (keys_of_toMembers hrest)

theorem Number.readsBack_of_toJson {n : Number} {depth : Nat} (h : n.shape.toJson depth = some (.number n)) :
    n.ReadsBack := by
  intro d
  rcases n.written with ⟨t, -, hshape⟩ | ⟨-, hshape⟩ <;> rw [hshape] at h ⊢ <;> exact h

mutual

/-- A value that is read back has no number that is not. -/
theorem readsBack_of_toJson : ∀ (v : Json) {depth : Nat}, v.shape.toJson depth = some v → v.All NumberReadsBack depth
  | .null, _, _ => trivial
  | .bool _, _, _ => trivial
  | .number _, _, h => Number.readsBack_of_toJson h
  | .text _, _, _ => trivial
  | .array vs, depth, h => by
    rw [shape, Raw.toJson] at h
    split at h
    · cases h
    · rename_i d hd
      obtain ⟨-, rfl⟩ := inside?_eq_some hd
      obtain ⟨vs', hvs, heq⟩ := Option.map_eq_some_iff.mp h
      cases heq
      exact ⟨trivial, readsBack_of_toJsons vs hvs⟩
  | .object ms, depth, h => by
    rw [shape, Raw.toJson] at h
    split at h
    · cases h
    · rename_i d hd
      obtain ⟨-, rfl⟩ := inside?_eq_some hd
      obtain ⟨es, hes, heq⟩ := Option.map_eq_some_iff.mp h
      obtain rfl : Table.ofEntries es = ms := by injection heq
      -- the entries have the keys of a table, so they are the table
      have hsorted : Table.Sorted es := by
        rw [Table.sorted_iff_keys, keys_of_toMembers hes]
        exact Table.sorted_iff_keys.mp (Table.sorted_ofEntries es)
      rw [Table.ofEntries_eq_self hsorted] at hes ⊢
      exact ⟨trivial, readsBack_of_toMembers es hes⟩

theorem readsBack_of_toJsons : ∀ (vs : List Json) {depth : Nat}, Raw.toJsons depth (shapes vs) = some vs →
    AllItems NumberReadsBack depth vs
  | [], _, _ => trivial
  | v :: vs, _, h => by
    obtain ⟨v', rest, hv, hrest, heq⟩ := toJsons_cons.mp h
    cases heq
    exact ⟨readsBack_of_toJson v hv, readsBack_of_toJsons vs hrest⟩

theorem readsBack_of_toMembers : ∀ (ms : List (String × Json)) {depth : Nat},
    Raw.toMembers depth (memberShapes ms) = some ms → AllMembers NumberReadsBack depth ms
  | [], _, _ => trivial
  | (k, v) :: ms, _, h => by
    obtain ⟨name, v', rest, -, hv, hrest, heq⟩ := toMembers_cons.mp h
    cases heq
    exact ⟨readsBack_of_toJson v hv, readsBack_of_toMembers ms hrest⟩

end

end Handout.Json
