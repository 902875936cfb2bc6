/-
  Handout.Proofs.Notebook.Multiline — which texts come through as they were written.

  A source is kept as lines: a string is split at its line ends, of a list each string is a
  line once the line ends around it are trimmed. The text of a cell is these lines with a
  line end between neighbours, so of a list it is the whole text where joining puts back
  what trimming took away.

  Whether it does is a matter of counting. What stands between two texts is line ends
  only, so the whole text is kept exactly when in front of each string with a text as many
  have been trimmed as strings stand before it, and in all one fewer than there are strings
  (`EvenFrom`).

  Proved:
  - `join_eq_iff_evenFrom`: the count is right, by induction on the strings.
  - `keeps_text_iff`: a string always keeps its text, and a list exactly where it comes out even;
    so it is for the cell that is read from it. A list whose last string ends in a line end
    does not come out even (`ended_list_loses_its_end`).
-/

import Handout.Proofs.Notebook.RoundTrip

namespace Handout

namespace Multiline

open Text (join textOf)

/-! ## Line ends around a text -/

/-- The line ends at the start of a string. -/
def leading (s : String) : Nat := (s.toList.takeWhile (· == '\n')).length

/-- The line ends at the end of a string that has a text. -/
def trailing (s : String) : Nat := ((s.toList.dropWhile (· == '\n')).rtakeWhile (· == '\n')).length

/-- The line ends that are trimmed. -/
def trimmed (s : String) : Nat := leading s + trailing s

theorem toList_eq (s : String) :
    s.toList = List.replicate (leading s) '\n' ++ ((trimBreaks s).toList ++ List.replicate (trailing s) '\n') := by
  have hstart : s.toList.takeWhile (· == '\n') = List.replicate (leading s) '\n' :=
    List.eq_replicate_of_mem fun c hc => by simpa using List.mem_takeWhile_imp hc
  have hend : (s.toList.dropWhile (· == '\n')).rtakeWhile (· == '\n') = List.replicate (trailing s) '\n' :=
    List.eq_replicate_of_mem fun c hc => by simpa using List.mem_rtakeWhile_imp hc
  rw [trimBreaks_eq, String.toList_ofList, ← hstart, ← hend, List.rdropWhile_append_rtakeWhile,
    List.takeWhile_append_dropWhile]

/-- A string without a text is line ends only. -/
theorem toList_of_trimBreaks_eq {s : String} (h : trimBreaks s = "") : s.toList = List.replicate (trimmed s) '\n' := by
  rw [toList_eq, h, String.toList_empty, List.nil_append, List.replicate_append_replicate, trimmed]

/-- A text begins with something else. -/
theorem exists_head_of_trimBreaks {s : String} (h : trimBreaks s ≠ "") :
    ∃ c t, (trimBreaks s).toList = c :: t ∧ c ≠ '\n' := by
  cases ht : (trimBreaks s).toList with
  | nil => exact absurd (String.toList_eq_nil_iff.mp ht) h
  | cons c t =>
    refine ⟨c, t, rfl, ?_⟩
    rintro rfl
    -- trimming once more would take it off
    have hagain := trimBreaks_trimBreaks s
    rw [trimBreaks_eq, ht, List.dropWhile_cons_of_pos (by rfl)] at hagain
    have hlength := congrArg String.length hagain
    have hprefix := (List.rdropWhile_prefix (fun c => c == '\n') (t.dropWhile (· == '\n'))).length_le
    have hsuffix := (List.dropWhile_suffix (fun c => c == '\n') (l := t)).length_le
    rw [String.length_ofList, ← String.length_toList, ht, List.length_cons] at hlength
    omega

/-- How many line ends stand in front of a text can be seen. -/
theorem replicate_append_cons_inj {m n : Nat} {c : Char} (hc : c ≠ '\n') {s t : List Char} :
    List.replicate m '\n' ++ c :: s = List.replicate n '\n' ++ c :: t ↔ m = n ∧ s = t := by
  refine ⟨fun h => ?_, by rintro ⟨rfl, rfl⟩; rfl⟩
  induction m generalizing n with
  | zero =>
    cases n with
    | zero => exact ⟨rfl, (List.cons.inj h).2⟩
    | succ n => exact absurd (List.cons.inj h).1 hc
  | succ m ih =>
    cases n with
    | zero => exact absurd (List.cons.inj h).1.symm hc
    | succ n =>
      obtain ⟨rfl, rfl⟩ := ih (List.cons.inj h).2
      exact ⟨rfl, rfl⟩

/-! ## Counting -/

/-- Joining the strings once they are trimmed puts back what trimming takes off, where `cut` line
    ends have been taken off before them and `put` put in. -/
structure EvenFrom (cut put : Nat) (ls : List String) : Prop where
  /-- In front of every string that has a text. -/
  before : ∀ i (h : i < ls.length), trimBreaks ls[i] ≠ "" →
    cut + ((ls.take i).map trimmed).sum + leading ls[i] = put + i
  /-- In all: between neighbours one is put in. -/
  total : cut + (ls.map trimmed).sum = put + (ls.length - 1)

instance (cut put : Nat) (ls : List String) : Decidable (EvenFrom cut put ls) :=
  decidable_of_iff ((∀ i (h : i < ls.length), trimBreaks ls[i] ≠ "" →
      cut + ((ls.take i).map trimmed).sum + leading ls[i] = put + i) ∧
    cut + (ls.map trimmed).sum = put + (ls.length - 1)) ⟨fun h => ⟨h.1, h.2⟩, fun h => ⟨h.1, h.2⟩⟩

variable {cut put : Nat} {s : String} {rest : List String}

theorem evenFrom_singleton :
    EvenFrom cut put [s] ↔ (trimBreaks s ≠ "" → cut + leading s = put) ∧ cut + trimmed s = put := by
  constructor
  · intro h
    exact ⟨fun hs => by simpa using h.before 0 (by simp) hs, by simpa using h.total⟩
  · rintro ⟨hbefore, htotal⟩
    refine ⟨fun i hi hs => ?_, by simpa using htotal⟩
    obtain rfl : i = 0 := by simpa using hi
    simpa using hbefore hs

theorem evenFrom_cons (hrest : rest ≠ []) :
    EvenFrom cut put (s :: rest) ↔
      (trimBreaks s ≠ "" → cut + leading s = put) ∧ EvenFrom (cut + trimmed s) (put + 1) rest := by
  have hlength : 0 < rest.length := List.length_pos_iff.mpr hrest
  constructor
  · intro h
    refine ⟨fun hs => by simpa using h.before 0 (Nat.succ_pos _) hs, ⟨fun i hi hs => ?_, ?_⟩⟩
    · have hi' := h.before (i + 1) (by simpa using hi) (by simpa using hs)
      simp only [List.take_succ_cons, List.map_cons, List.sum_cons, List.getElem_cons_succ] at hi'
      omega
    · have htotal := h.total
      simp only [List.map_cons, List.sum_cons, List.length_cons] at htotal
      omega
  · rintro ⟨hfirst, h⟩
    refine ⟨fun i hi hs => ?_, ?_⟩
    · cases i with
      | zero => simpa using hfirst (by simpa using hs)
      | succ i =>
        have hi' := h.before i (by simpa using hi) (by simpa using hs)
        simp only [List.take_succ_cons, List.map_cons, List.sum_cons, List.getElem_cons_succ]
        omega
    · have htotal := h.total
      simp only [List.map_cons, List.sum_cons, List.length_cons]
      omega

/-- Only the difference of what was taken off and put in before the strings matters. -/
theorem EvenFrom.shift {cut' put' : Nat} {ls : List String} (h : EvenFrom cut put ls) (heq : cut + put' = cut' + put) :
    EvenFrom cut' put' ls := by
  refine ⟨fun i hi hs => ?_, ?_⟩
  · have hi' := h.before i hi hs
    omega
  · have htotal := h.total
    omega

/-- Line ends only: they are counted with those before what comes next. -/
theorem front_of_blank (hs : trimBreaks s = "") (cut put : Nat) (x y : List Char) :
    List.replicate cut '\n' ++ (s.toList ++ x) = List.replicate put '\n' ++ ((trimBreaks s).toList ++ y) ↔
      List.replicate (cut + trimmed s) '\n' ++ x = List.replicate put '\n' ++ y := by
  rw [toList_of_trimBreaks_eq hs, hs, String.toList_empty, List.nil_append, ← List.append_assoc,
    List.replicate_append_replicate]

/-- A text: the count has to be even in front of it, and begins again behind it. -/
theorem front_of_text (hs : trimBreaks s ≠ "") (cut put : Nat) (x y : List Char) :
    List.replicate cut '\n' ++ (s.toList ++ x) = List.replicate put '\n' ++ ((trimBreaks s).toList ++ y) ↔
      cut + leading s = put ∧ List.replicate (trailing s) '\n' ++ x = y := by
  obtain ⟨c, t, ht, hc⟩ := exists_head_of_trimBreaks hs
  rw [toList_eq s, ht]
  simp only [List.append_assoc, List.cons_append]
  rw [← List.append_assoc, List.replicate_append_replicate, replicate_append_cons_inj hc, List.append_cancel_left_eq]

/-- The strings themselves, and the strings trimmed and joined, are one text exactly when the count
    comes out even. -/
theorem join_eq_iff_evenFrom {ls : List String} (h : ls ≠ []) (cut put : Nat) :
    List.replicate cut '\n' ++ ls.flatMap String.toList =
      List.replicate put '\n' ++ join ((ls.map trimBreaks).map String.toList) ↔ EvenFrom cut put ls := by
  induction ls generalizing cut put with
  | nil => exact absurd rfl h
  | cons s rest ih =>
    cases rest with
    | nil =>
      have hjoin : join (([s].map trimBreaks).map String.toList) = (trimBreaks s).toList ++ [] :=
        (List.append_nil _).symm
      rw [evenFrom_singleton, List.flatMap_cons, List.flatMap_nil, hjoin]
      by_cases hs : trimBreaks s = ""
      · rw [front_of_blank hs]
        simp [hs]
      · rw [front_of_text hs, List.append_nil, List.replicate_eq_nil_iff, trimmed]
        simp only [ne_eq, hs, not_false_eq_true, true_implies]
        omega
    | cons next rest =>
      have hrest : next :: rest ≠ [] := List.cons_ne_nil _ _
      have hjoin : join (((s :: next :: rest).map trimBreaks).map String.toList) =
          (trimBreaks s).toList ++ (List.replicate 1 '\n' ++ join (((next :: rest).map trimBreaks).map String.toList)) :=
        rfl
      rw [evenFrom_cons hrest, List.flatMap_cons, hjoin]
      by_cases hs : trimBreaks s = ""
      · rw [front_of_blank hs, ← List.append_assoc, List.replicate_append_replicate, ih hrest]
        simp [hs]
      · rw [front_of_text hs, ih hrest]
        simp only [ne_eq, hs, not_false_eq_true, true_implies]
        refine and_congr_right fun heven => ⟨fun h => h.shift ?_, fun h => h.shift ?_⟩ <;> rw [trimmed] <;> omega

/-! ## Sources -/

/-- A source whose lines have the whole text of what it was given as. -/
def KeepsText : Multiline → Prop
  | .text _ => True
  | .lines ls => EvenFrom 0 0 ls

instance : DecidablePred KeepsText := fun m =>
  match m with
  | .text _ => .isTrue trivial
  | .lines ls => inferInstanceAs (Decidable (EvenFrom 0 0 ls))

theorem textOf_toLines_text (s : String) : textOf (text s).toLines = s := Text.textOf_linesOf s

theorem textOf_toLines_iff (m : Multiline) : textOf m.toLines = m.joined ↔ m.KeepsText := by
  cases m with
  | text s => exact iff_of_true (textOf_toLines_text s) trivial
  | lines ls =>
    have hlists : textOf (lines ls).toLines = (lines ls).joined ↔
        ls.flatMap String.toList = join ((ls.map trimBreaks).map String.toList) := by
      rw [← String.toList_inj, textOf, String.toList_ofList, joined, String.toList_join, toLines]
      exact eq_comm
    rw [hlists, KeepsText]
    cases ls with
    | nil => exact iff_of_true rfl (by decide)
    | cons s rest => exact join_eq_iff_evenFrom (List.cons_ne_nil s rest) 0 0

end Multiline

namespace Cell

open Json Json.Raw

/-- What the source of a cell's record holds, if it has one. -/
def heldSource (depth : Nat) (r : Raw) : Option Multiline := do
  let found ← record fields depth r
  (← found.optional "source" none (orNull asMultiline))

/-- The text of a cell that was read is the text of the lines of its source. -/
theorem text_of_asCell {depth : Nat} {r : Raw} {c : Cell} (h : asCell depth r = some c) :
    c.text = ((heldSource depth r).map fun m => Text.textOf m.toLines).getD "" := by
  simp only [asCell, Option.bind_eq_bind, Option.bind_eq_some_iff, Option.pure_def, Option.some.injEq] at h
  obtain ⟨found, hfound, _, -, _, -, _, -, source, hsource, _, -, _, -, _, -, rfl⟩ := h
  have hheld : heldSource depth r = source := by
    simp only [heldSource, hfound, hsource, Option.bind_eq_bind, Option.bind_some]
  rw [hheld, text]
  cases source <;> rfl

end Cell

namespace Multiline

/-- The lines of a source have its whole text exactly when it is a string, or a list that comes out
    even. Exactly then are they the lines of the string of the same text, and the text of a cell
    that is read with this source is the whole text. -/
theorem keeps_text_iff (m : Multiline) :
    (Text.textOf m.toLines = m.joined ↔ m.KeepsText) ∧
    (Text.textOf m.toLines = Text.textOf (text m.joined).toLines ↔ m.KeepsText) ∧
    ∀ depth r c, Cell.asCell depth r = some c → Cell.heldSource depth r = some m →
      (c.text = m.joined ↔ m.KeepsText) := by
  refine ⟨textOf_toLines_iff m, ?_, fun depth r c hc hm => ?_⟩
  · rw [textOf_toLines_text, textOf_toLines_iff]
  · rw [Cell.text_of_asCell hc, hm]
    exact textOf_toLines_iff m

/-- A cell of three lines, whose strings are not these lines. -/
def gappedCell : Json.Raw :=
  .object [(Notebook.piecesOf "cell_type", .text (Notebook.piecesOf "raw")),
    (Notebook.piecesOf "source", .array (["a", "\n", "\nb"].map fun l => .text (Notebook.piecesOf l)))]

theorem gapped_list_keeps_text : ∃ c, Cell.asCell Json.depthLimit gappedCell = some c ∧
    Cell.heldSource Json.depthLimit gappedCell = some (lines ["a", "\n", "\nb"]) ∧ c.text = "a\n\nb" := by
  have hheld : Cell.heldSource Json.depthLimit gappedCell = some (lines ["a", "\n", "\nb"]) := by decide +kernel
  obtain ⟨c, hc⟩ := Option.isSome_iff_exists.mp
    (show (Cell.asCell Json.depthLimit gappedCell).isSome = true by decide +kernel)
  have htext := ((keeps_text_iff _).2.2 _ _ c hc hheld).mpr (by decide)
  exact ⟨c, hc, hheld, htext⟩

/-- A list whose last string ends in a line end. -/
theorem ended_list_loses_its_end :
    Text.textOf (lines ["a\n"]).toLines = "a" ∧ (lines ["a\n"]).joined = "a\n" ∧
      Text.textOf (text "a\n").toLines = "a\n" := by
  decide

end Multiline
end Handout
