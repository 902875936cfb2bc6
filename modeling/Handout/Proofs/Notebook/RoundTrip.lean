/-
  Handout.Proofs.Notebook.RoundTrip — a notebook that was read, written and read again.

  What was read has lines without line ends around them, values that may stand where they
  are and no `null` among the attachments (`Cell.Readable`), whichever shape its text had.
  From there the text that is written is read field by field (`asCell_toJson`,
  `asNotebook_toJson`): the line ends that writing adds are those that reading takes off,
  and outputs and execution counts are written for code cells only.

  Proved:
  - `rewriting_loses_nothing`: the notebook is read back without what other cells had run,
    and a second rewriting changes nothing, wherever the values it carries through are read
    back for themselves.
-/

import Mathlib
import Handout.Proofs.Json.Record
import Handout.Proofs.Notebook.Stripping

namespace Handout

/-! ## Line ends -/

namespace Multiline

theorem trimBreaks_eq_self {s : String} (h : '\n' ∉ s.toList) : trimBreaks s = s := by
  have hstart : ∀ cs : List Char, '\n' ∉ cs → cs.dropWhile (· == '\n') = cs := by
    intro cs hcs
    cases cs with
    | nil => rfl
    | cons c cs =>
      have hc : (c == '\n') = false := beq_eq_false_iff_ne.mpr fun hc => hcs (hc ▸ List.mem_cons_self ..)
      exact List.dropWhile_cons_of_neg (by rw [hc]; decide)
  rw [trimBreaks, hstart _ h, hstart _ (by simpa using h), List.reverse_reverse, String.ofList_toList]

theorem trimBreaks_eq (s : String) :
    trimBreaks s = String.ofList ((s.toList.dropWhile (· == '\n')).rdropWhile (· == '\n')) := rfl

/-- A line end at the end of a line is taken off. -/
theorem trimBreaks_append_break (s : String) : trimBreaks (s ++ "\n") = trimBreaks s := by
  have htext : (s ++ "\n").toList = s.toList ++ ['\n'] := by simp
  rw [trimBreaks_eq, trimBreaks_eq, htext, List.dropWhile_append]
  split
  · rename_i hempty
    rw [List.isEmpty_iff.mp hempty]
    rfl
  · rw [List.rdropWhile_concat_pos _ _ _ (by rfl)]

theorem trimBreaks_trimBreaks (s : String) : trimBreaks (trimBreaks s) = trimBreaks s := by
  have hprefix := List.rdropWhile_prefix (fun c => c == '\n') (s.toList.dropWhile fun c => c == '\n')
  have hstart : ((s.toList.dropWhile (· == '\n')).rdropWhile (· == '\n')).dropWhile (· == '\n') =
      (s.toList.dropWhile (· == '\n')).rdropWhile (· == '\n') := by
    rw [List.dropWhile_eq_self_iff]
    intro hlength
    -- it begins as what is left behind the line ends in front
    rw [List.IsPrefix.getElem hprefix hlength]
    exact List.dropWhile_eq_self_iff.mp (List.dropWhile_idempotent (fun c => c == '\n') s.toList) _
  rw [trimBreaks_eq, trimBreaks_eq s, String.toList_ofList, hstart, List.rdropWhile_idempotent]

/-- The lines of a source have no line ends around them. -/
theorem trimBreaks_of_mem_toLines {m : Multiline} {l : String} (h : l ∈ m.toLines) : trimBreaks l = l := by
  cases m with
  | text s => exact trimBreaks_eq_self (Text.notMem_of_mem_linesOf h)
  | lines ls =>
    obtain ⟨l', -, rfl⟩ := List.mem_map.mp h
    exact trimBreaks_trimBreaks l'

end Multiline

namespace Cell

/-- Reading takes off the line ends that writing has added. -/
theorem toLines_withBreaks {ls : List String} (h : ∀ l ∈ ls, Multiline.trimBreaks l = l) :
    (Multiline.lines (withBreaks ls)).toLines = ls := by
  show (withBreaks ls).map Multiline.trimBreaks = ls
  fun_induction withBreaks ls with
  | case1 => rfl
  | case2 l => rw [List.map_singleton, h l (List.mem_singleton_self l)]
  | case3 l rest _ ih =>
    obtain ⟨hl, hrest⟩ := List.forall_mem_cons.mp h
    rw [List.map_cons, Multiline.trimBreaks_append_break, hl, ih hrest]

/-! ## What was read -/

/-- The values of a cell that are carried through as they are. -/
def carried (c : Cell) : List Json :=
  c.metadata.map Prod.snd ++ c.attachments.toList ++ if c.isCode then c.outputs else []

/-- A cell whose fields may be read at `depth` from what is written for them. -/
structure Readable (depth : Nat) (c : Cell) : Prop where
  source : ∀ l ∈ c.source, Multiline.trimBreaks l = l
  metadata : (Json.object c.metadata).All Json.Fits depth
  attachments : ∀ v, c.attachments = some v → v ≠ .null ∧ v.All Json.Fits depth
  outputs : (Json.array c.outputs).All Json.Fits depth
  count : ∀ n, c.executionCount = some n → Json.IsInt64 n ∧ n ≤ 9223372036854775807

open Json Json.Raw

theorem fits_nil_members {depth : Nat} (h : 1 < depth) : (Json.object []).All Fits depth :=
  ⟨⟨h, Table.sorted_nil⟩, trivial⟩

theorem fits_nil_items {depth : Nat} (h : 1 < depth) : (Json.array []).All Fits depth := ⟨h, trivial⟩

theorem isInt64_of_int? {v : Json} {n : Int} {depth : Nat} (hv : v.All Fits depth) (h : v.int? = some n) :
    IsInt64 n ∧ n ≤ 9223372036854775807 := by
  cases v with
  | number m =>
    cases m with
    | int m =>
      obtain ⟨hle, rfl⟩ : m ≤ 9223372036854775807 ∧ m = n := by simpa [int?] using h
      exact ⟨hv, hle⟩
    | float d => cases h
  | _ => cases h

theorem readable_of_asCell {depth : Nat} {r : Raw} {c : Cell} (hd : 2 < depth) (h : asCell depth r = some c) :
    c.Readable (depth - 1) := by
  simp only [asCell, Option.bind_eq_bind, Option.bind_eq_some_iff, Option.pure_def, Option.some.injEq] at h
  obtain ⟨found, hfound, kind, -, id, -, metadata, hmetadata, source, hsource, attachments, hattachments, outputs,
    houtputs, count, hcount, rfl⟩ := h
  obtain ⟨-, hdepth⟩ := depth_of_record hfound
  rw [← hdepth]
  have hinside : 1 < found.depth := by omega
  refine ⟨?_, ?_, ?_, ?_, ?_⟩
  · intro l hl
    cases source with
    | none => cases hl
    | some m => exact Multiline.trimBreaks_of_mem_toLines hl
  · rcases optional_cases hmetadata with rfl | ⟨r, hr⟩
    · exact fits_nil_members hinside
    · exact fits_of_asMembers hr
  · rintro v rfl
    rcases optional_cases hattachments with hnone | ⟨r, hr⟩
    · cases hnone
    · exact ⟨not_null_of_orNull hr, fits_of_toJson r (orNull_eq_some hr)⟩
  · cases outputs with
    | none => exact fits_nil_items hinside
    | some vs =>
      rcases optional_cases houtputs with hnone | ⟨r, hr⟩
      · cases hnone
      · exact fits_of_asList (orNull_eq_some hr)
  · intro n hn
    obtain ⟨v, rfl, hv⟩ := Option.bind_eq_some_iff.mp hn
    rcases optional_cases hcount with hnone | ⟨r, hr⟩
    · cases hnone
    · exact isInt64_of_int? (fits_of_toJson r (orNull_eq_some hr)) hv

/-! ## What is written -/

/-- The members that a cell is written with. -/
def members (c : Cell) : List (String × Json) :=
  ("cell_type", .text c.kind.name) :: given "id" (c.id.map .text) ++
    [("metadata", .object c.metadata), ("source", .array ((withBreaks c.source).map .text))] ++
    given "attachments" c.attachments ++
    if c.isCode then
      [("outputs", .array c.outputs),
        ("execution_count", (c.executionCount.map fun n => .number (.int n)).getD .null)]
    else []

theorem toJson_eq (c : Cell) : c.toJson = .object c.members := rfl

/-- A cell without what is not written of it. -/
def kept (c : Cell) : Cell := if c.isCode then c else c.clearOutputs

theorem keys_members (c : Cell) : (Table.keys c.members).Sublist fields := by
  have hkeys : Table.keys c.members = "cell_type" :: (if c.id.isSome then ["id"] else []) ++ ["metadata", "source"] ++
      (if c.attachments.isSome then ["attachments"] else []) ++
      if c.isCode then ["outputs", "execution_count"] else [] := by
    unfold members
    cases c.id <;> cases c.attachments <;> cases c.isCode <;> rfl
  rw [hkeys]
  cases c.id.isSome <;> cases c.attachments.isSome <;> cases c.isCode <;> decide

/-- What is written under each name. -/
theorem lookup_members (c : Cell) :
    c.members.lookup "cell_type" = some (.text c.kind.name) ∧ c.members.lookup "id" = c.id.map .text ∧
    c.members.lookup "metadata" = some (.object c.metadata) ∧
    c.members.lookup "source" = some (.array ((withBreaks c.source).map .text)) ∧
    c.members.lookup "attachments" = c.attachments ∧
    c.members.lookup "outputs" = (if c.isCode then some (.array c.outputs) else none) ∧
    c.members.lookup "execution_count" =
      if c.isCode then some ((c.executionCount.map fun n => .number (.int n)).getD .null) else none := by
  unfold members
  cases c.id <;> cases c.attachments <;> cases c.isCode <;> simp [given, List.lookup]

theorem ofName?_name (k : CellKind) : CellKind.ofName? k.name = some k := by
  cases k <;> rfl

theorem mapM_text? (ls : List String) : (ls.map Json.text).mapM Json.text? = some ls := by
  induction ls with
  | nil => rfl
  | cons l ls ih => rw [List.map_cons, List.mapM_cons, ih]; rfl

theorem asMultiline_shape {depth : Nat} (hd : 1 < depth) (ls : List String) :
    asMultiline depth (Json.shape (.array (ls.map .text))) = some (.lines ls) := by
  have hfits : AllItems Fits (depth - 1) (ls.map .text) := allItems_iff.mpr (List.forall_mem_map.mpr fun _ _ => trivial)
  have hback : AllItems NumberReadsBack 0 (ls.map .text) := allItems_iff.mpr (List.forall_mem_map.mpr fun _ _ => trivial)
  have hread := asJson_shape (v := .array (ls.map .text)) (d := 1) ⟨hd, hfits⟩ ⟨trivial, hback⟩
  have htexts : Multiline.ofJson? (.array (ls.map .text)) = some (.lines ls) := by
    simp only [Multiline.ofJson?, Json.texts?, mapM_text?, Option.map_some]
  rw [asMultiline, hread, Option.bind_some, htexts]

section

variable {depth d : Nat} {c : Cell}

theorem outputs_read (h : c.Readable depth) (hback : ∀ v ∈ c.carried, v.All NumberReadsBack d) :
    Found.optional "outputs" none (orNull (asList asJson)) ⟨depth, fieldsOf c.members⟩ =
      some (if c.isCode then some c.outputs else none) := by
  obtain ⟨-, -, -, -, -, hlookup, -⟩ := lookup_members c
  cases hcode : c.isCode with
  | false =>
    rw [hcode] at hlookup
    exact optional_of_lookup_none hlookup
  | true =>
    rw [hcode] at hlookup
    have hnumbers : AllItems NumberReadsBack d c.outputs :=
      allItems_iff.mpr fun v hv => hback v (by simp [carried, hcode, hv])
    exact optional_of_lookup hlookup (orNull_shape nofun (asValues_shape h.outputs hnumbers))

theorem count_read (h : c.Readable depth) :
    Found.optional "execution_count" none (orNull asJson) ⟨depth, fieldsOf c.members⟩ =
      some (if c.isCode then c.executionCount.map fun n => .number (.int n) else none) := by
  obtain ⟨-, -, -, -, -, -, hlookup⟩ := lookup_members c
  cases hcode : c.isCode with
  | false =>
    rw [hcode] at hlookup
    exact optional_of_lookup_none hlookup
  | true =>
    rw [hcode] at hlookup
    refine optional_of_lookup hlookup ?_
    cases hcount : c.executionCount with
    | none => rfl
    | some n =>
      have hint := (h.count n hcount).1
      have hnumber : (Json.number (.int n)).All NumberReadsBack 0 := Number.readsBack_int hint
      exact orNull_shape (shape_ne_null nofun hnumber) (asJson_shape hint hnumber)

theorem bind_int?_count (h : c.Readable depth) :
    (c.executionCount.map fun n => Json.number (.int n)).bind Json.int? = c.executionCount := by
  cases hcount : c.executionCount with
  | none => rfl
  | some n =>
    obtain ⟨-, hle⟩ := h.count n hcount
    simp [Json.int?, hle]

/-- A cell is read from what is written for it. -/
theorem asCell_toJson (hd : 2 < depth) (h : c.Readable (depth - 1)) (hback : ∀ v ∈ c.carried, v.All NumberReadsBack d) :
    asCell depth c.toJson.shape = some c.kept := by
  have hinside : 1 < depth - 1 := by omega
  obtain ⟨hkind, hid, hmetadata, hsource, hattachments, -, -⟩ := lookup_members c
  have hrecord := record_shape (by omega : 1 < depth) (by decide) (keys_members c)
  have hmembers : AllMembers NumberReadsBack d c.metadata :=
    allMembers_iff.mpr fun e he => hback e.2 (List.mem_append_left _ (List.mem_append_left _ (List.mem_map_of_mem he)))
  have hkind : Found.required "cell_type" (asWordOf CellKind.ofName?) ⟨depth - 1, fieldsOf c.members⟩ = some c.kind :=
    required_of_lookup hkind ((asWordOf_shape _ _).trans (ofName?_name _))
  have hid : Found.optional "id" none (orNull asText) ⟨depth - 1, fieldsOf c.members⟩ = some c.id :=
    optional_of_given hid fun s _ => ⟨nofun, asText_shape s⟩
  have hmetadata : Found.optional "metadata" [] asMembers ⟨depth - 1, fieldsOf c.members⟩ = some c.metadata :=
    optional_of_lookup hmetadata (asMembers_shape h.metadata hmembers)
  have hsource : Found.optional "source" none (orNull asMultiline) ⟨depth - 1, fieldsOf c.members⟩ =
      some (some (.lines (withBreaks c.source))) :=
    optional_of_lookup hsource (orNull_shape nofun (asMultiline_shape hinside (withBreaks c.source)))
  have hattachments : Found.optional "attachments" none (orNull asJson) ⟨depth - 1, fieldsOf c.members⟩ =
      some c.attachments :=
    optional_of_given (hattachments.trans Option.map_id'.symm) fun v hv =>
      have hnumbers : v.All NumberReadsBack d := hback v (by simp [carried, hv])
      ⟨shape_ne_null (h.attachments v hv).1 hnumbers, asJson_shape (h.attachments v hv).2 hnumbers⟩
  have houtputs := outputs_read h hback
  have hcount := count_read h
  simp only [asCell, toJson_eq, hrecord, hkind, hid, hmetadata, hsource, hattachments, houtputs, hcount,
    Option.bind_eq_bind, Option.bind_some, Option.pure_def, Option.map_some, Option.getD_some, toLines_withBreaks h.source]
  cases hcode : c.isCode with
  | false => simp [kept, hcode, clearOutputs]
  | true => simp [kept, hcode, bind_int?_count h]

end

end Cell

/-! ## Notebooks -/

namespace Notebook

open Json Json.Raw

/-- The values of a notebook that are carried through as they are. -/
def carried (nb : Notebook) : List Json := nb.metadata.map Prod.snd ++ nb.cells.flatMap Cell.carried

/-- A notebook without what is not written of it. -/
def kept (nb : Notebook) : Notebook := { nb with cells := nb.cells.map Cell.kept }

/-- A notebook that may be read from what is written for it. -/
structure Readable (depth : Nat) (nb : Notebook) : Prop where
  cells : ∀ c ∈ nb.cells, c.Readable (depth - 3)
  metadata : (Json.object nb.metadata).All Fits (depth - 1)
  format : nb.format < 4294967296
  minor : nb.minor < 4294967296

theorem asWord_lt {depth : Nat} {r : Raw} {n : Nat} (h : asWord depth r = some n) : n < 4294967296 := by
  cases r with
  | number t =>
    simp only [asWord] at h
    split at h
    · split at h
      · cases h
        omega
      · cases h
    · cases h
  | _ => cases h

theorem readable_of_asNotebook {depth : Nat} {r : Raw} {nb : Notebook} (hd : 4 < depth)
    (h : asNotebook depth r = some nb) : nb.Readable depth := by
  simp only [asNotebook, Option.bind_eq_bind, Option.bind_eq_some_iff, Option.pure_def, Option.some.injEq] at h
  obtain ⟨found, hfound, cells, hcells, metadata, hmetadata, format, hformat, minor, hminor, rfl⟩ := h
  obtain ⟨-, hdepth⟩ := depth_of_record hfound
  refine ⟨?_, ?_, ?_, ?_⟩
  · intro c hc
    obtain ⟨r, -, hlist⟩ := Option.bind_eq_some_iff.mp hcells
    unfold asList at hlist
    split at hlist
    · obtain ⟨inside, hinside, hmap⟩ := Option.bind_eq_some_iff.mp hlist
      obtain ⟨-, hinside⟩ := inside?_eq_some hinside
      obtain ⟨r', -, hcell⟩ := exists_of_mem_mapM hmap c hc
      have hreadable := Cell.readable_of_asCell (by omega) hcell
      rwa [show inside - 1 = depth - 3 by omega] at hreadable
    · cases hlist
  · rw [← hdepth]
    rcases optional_cases hmetadata with rfl | ⟨r, hr⟩
    · exact Cell.fits_nil_members (by omega)
    · exact fits_of_asMembers hr
  · rcases optional_cases hformat with rfl | ⟨r, hr⟩
    · exact (by decide : defaultFormat < 4294967296)
    · exact asWord_lt hr
  · rcases optional_cases hminor with rfl | ⟨r, hr⟩
    · exact Nat.zero_lt_succ _
    · exact asWord_lt hr

/-- The members that a notebook is written with. -/
def members (nb : Notebook) : List (String × Json) :=
  [("cells", .array (nb.cells.map Cell.toJson)), ("metadata", .object nb.metadata), ("nbformat", .ofNat nb.format),
    ("nbformat_minor", .ofNat nb.minor)]

theorem toJson_eq (nb : Notebook) : nb.toJson = .object nb.members := rfl

/-- A notebook is read from what is written for it. -/
theorem asNotebook_toJson {depth d : Nat} {nb : Notebook} (hd : 4 < depth) (h : nb.Readable depth)
    (hback : ∀ v ∈ nb.carried, v.All NumberReadsBack d) : asNotebook depth nb.toJson.shape = some nb.kept := by
  have hkeys : (Table.keys nb.members).Sublist fields := List.Sublist.refl fields
  have hrecord := record_shape (by omega : 1 < depth) (by decide) hkeys
  have hmembers : AllMembers NumberReadsBack d nb.metadata :=
    allMembers_iff.mpr fun e he => hback e.2 (List.mem_append_left _ (List.mem_map_of_mem he))
  have hcells : ∀ c ∈ nb.cells, Cell.asCell (depth - 1 - 1) c.toJson.shape = some c.kept := fun c hc =>
    Cell.asCell_toJson (by omega) (h.cells c hc) fun v hv =>
      hback v (List.mem_append_right _ (List.mem_flatMap.mpr ⟨c, hc, hv⟩))
  have hcells : Found.required "cells" (asList Cell.asCell) ⟨depth - 1, fieldsOf nb.members⟩ =
      some (nb.cells.map Cell.kept) :=
    required_of_lookup rfl (asList_shape (by omega) hcells)
  have hmetadata : Found.optional "metadata" [] asMembers ⟨depth - 1, fieldsOf nb.members⟩ = some nb.metadata :=
    optional_of_lookup rfl (asMembers_shape h.metadata hmembers)
  have hformat : Found.optional "nbformat" defaultFormat asWord ⟨depth - 1, fieldsOf nb.members⟩ = some nb.format :=
    optional_of_lookup rfl (asWord_shape h.format)
  have hminor : Found.optional "nbformat_minor" 0 asWord ⟨depth - 1, fieldsOf nb.members⟩ = some nb.minor :=
    optional_of_lookup rfl (asWord_shape h.minor)
  simp only [asNotebook, toJson_eq, hrecord, hcells, hmetadata, hformat, hminor, Option.bind_eq_bind, Option.bind_some,
    Option.pure_def, kept]

/-! ## Texts -/

theorem ofText_eq_ok_iff {text : String} {nb : Notebook} :
    ofText text = .ok nb ↔ ∃ r, Raw.parse? text.toList = some r ∧ asNotebook depthLimit r = some nb := by
  have hread : read? asNotebook text.toList = some nb ↔
      ∃ r, Raw.parse? text.toList = some r ∧ asNotebook depthLimit r = some nb := Option.bind_eq_some_iff
  rw [← hread, ofText]
  cases read? asNotebook text.toList <;> simp

theorem ofText_toText {nb : Notebook} (h : nb.Readable depthLimit)
    (hback : ∀ v ∈ nb.carried, v.All NumberReadsBack depthLimit) : ofText nb.toText = .ok nb.kept := by
  refine ofText_eq_ok_iff.mpr ⟨nb.toJson.shape, ?_, asNotebook_toJson (by decide) h hback⟩
  rw [toText, String.toList_ofList]
  exact parse?_write indentWidth nb.toJson (Or.inr rfl)

theorem toJson_kept (c : Cell) : c.kept.toJson = c.toJson := by
  unfold Cell.kept
  cases hcode : c.isCode with
  | true => rfl
  | false =>
    have hkind : (c.kind == CellKind.code) = false := hcode
    simp only [Bool.false_eq_true, if_false, Cell.toJson, Cell.isCode, hkind, Cell.clearOutputs]

/-- What is not written makes no difference to the text. -/
theorem toText_kept (nb : Notebook) : nb.kept.toText = nb.toText := by
  have hcells : nb.kept.cells.map Cell.toJson = nb.cells.map Cell.toJson := by
    simp only [kept, List.map_map, Function.comp_def, toJson_kept]
  rw [toText, toText, toJson, toJson, hcells]
  rfl

/-- A notebook that was read from a text, in whichever shapes its sources were given, is written and
    read back without what cells that are no code cells had run; written again it has the same
    text. All that is assumed is that the values carried through are read back where each is
    written for itself. -/
theorem rewriting_loses_nothing {text : String} {nb : Notebook} (hread : ofText text = .ok nb)
    (hcarried : ∀ v ∈ nb.carried, Json.parse? (String.ofList (v.write indentWidth 0)) = some v) :
    ofText nb.toText = .ok { nb with cells := nb.cells.map fun c => if c.isCode then c else c.clearOutputs } ∧
    (ofText nb.toText).map toText = .ok nb.toText := by
  obtain ⟨r, -, hnb⟩ := ofText_eq_ok_iff.mp hread
  have hback : ofText nb.toText = .ok nb.kept :=
    ofText_toText (readable_of_asNotebook (by decide) hnb) fun v hv => numbersReadBack_of_parse? (hcarried v hv)
  refine ⟨hback, ?_⟩
  rw [hback, Except.map, toText_kept]

/-- A raw cell that was run, and a code cell whose source is one string with a line end. -/
def ranText : String :=
  "\x7b\"cells\":[\x7b\"cell_type\":\"raw\",\"source\":[\"\\na\\nb\\n\",\"c\"],\"execution_count\":2\x7d," ++
    "\x7b\"cell_type\":\"code\",\"source\":\"x\\n\",\"outputs\":[15]\x7d]\x7d"

/-- That text as its JSON is parsed. -/
def ranShape : Json.Raw :=
  .object [(piecesOf "cells", .array [
    .object [(piecesOf "cell_type", .text (piecesOf "raw")),
      (piecesOf "source", .array [.text (piecesOf "\na\nb\n"), .text (piecesOf "c")]),
      (piecesOf "execution_count", .number ⟨false, "2".toList, none, none⟩)],
    .object [(piecesOf "cell_type", .text (piecesOf "code")), (piecesOf "source", .text (piecesOf "x\n")),
      (piecesOf "outputs", .array [.number ⟨false, "15".toList, none, none⟩])]])]

/-- The notebook of that text, with this count for its raw cell. -/
def ran (count : Option Int) : Notebook :=
  ⟨[⟨.raw, none, ["a\nb", "c"], [], count, [], none⟩, ⟨.code, none, ["x", ""], [.number (.int 15)], none, [], none⟩],
    [], defaultFormat, 0⟩

/-- What the raw cell had run is gone when the notebook is read back, and nothing else. -/
theorem ran_is_read_back :
    ofText ranText = .ok (ran (some 2)) ∧ ofText (ran (some 2)).toText = .ok (ran none) ∧
    (ofText (ran (some 2)).toText).map toText = .ok (ran (some 2)).toText := by
  have hshape : Json.Raw.parse? ranText.toList = some ranShape := by cbv
  have hread : ofText ranText = .ok (ran (some 2)) := ofText_eq_ok_iff.mpr ⟨ranShape, hshape, by cbv⟩
  have hvalue : Json.parse? (String.ofList ((Json.number (.int 15)).write indentWidth 0)) = some (.number (.int 15)) := by
    cbv
  have hcarried : ∀ v ∈ (ran (some 2)).carried, Json.parse? (String.ofList (v.write indentWidth 0)) = some v :=
    List.forall_mem_singleton.mpr hvalue
  exact ⟨hread, rewriting_loses_nothing hread hcarried⟩

end Notebook
end Handout
