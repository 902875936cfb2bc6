/-
  Handout.Proofs.TestFile.Reencoding — a test file that has been read is written and read again,
  unless its points are infinite.

  Every spelling that is accepted gives a file, and of what a file holds only the points have
  values without a literal. They are never a NaN, as there is no numeral for it, but a numeral
  may be too large for a double (`points_of_decode`): it is read as an infinity, and what is
  written for that is refused.

  Proved:
  - `reencodes_iff`: a file that has been read is read again from its stored text exactly when its
    points are finite, and they are unless the text has a numeral that is too large.
-/

import Handout.Proofs.Literal.Infinity
import Handout.Proofs.TestFile.RoundTrip

namespace Handout.TestFile

open Literal (Overflows Took bind_eq_ok)

variable {t : String} {f : TestFile}

/-! ## The points of a file that has been read -/

theorem optional_eq_ok {α : Type} {key : String} {default a : α} {read : Literal → Option α} {es : Entries}
    (h : optional key default read es = .ok a) :
    a = default ∨ ∃ v, Table.find? key es = some v ∧ read v = some a := by
  unfold optional at h
  split at h
  · exact Or.inl (Except.ok.inj h).symm
  · rename_i v hv
    split at h
    · rename_i b hb
      obtain rfl := Except.ok.inj h
      exact Or.inr ⟨v, hv, hb⟩
    · cases h

theorem points_of_ofLiteral {v : Literal} (h : ofLiteral v = .ok f) :
    ∃ es, v = .dict es ∧ optional "points" .zero Literal.number? es = .ok f.points := by
  obtain ⟨es, hes, h⟩ := bind_eq_ok h
  obtain ⟨vs, -, h⟩ := bind_eq_ok h
  obtain ⟨suites, -, h⟩ := bind_eq_ok h
  obtain ⟨name, -, h⟩ := bind_eq_ok h
  obtain ⟨points, hpoints, h⟩ := bind_eq_ok h
  obtain ⟨hidden, -, h⟩ := bind_eq_ok h
  obtain rfl := Except.ok.inj h
  cases v with
  | dict es' =>
    obtain rfl := Except.ok.inj hes
    exact ⟨es', rfl, hpoints⟩
  | _ => cases hes

theorem parse_of_decode (h : decode t = .ok f) : ∃ v, Literal.parseAssignment t.toList = .ok v ∧ ofLiteral v = .ok f := by
  unfold decode at h
  split at h
  · cases h
  · rename_i v hv
    exact ⟨v, hv, h⟩

/-- The points are no NaN, and infinite only where the text has a numeral that is too large. -/
theorem points_of_decode (h : decode t = .ok f) :
    f.points.isFinite = true ∨ (f.points.isInfinite = true ∧ Overflows t.toList) := by
  obtain ⟨v, hparse, hread⟩ := parse_of_decode h
  obtain ⟨es, rfl, hpoints⟩ := points_of_ofLiteral hread
  rcases optional_eq_ok hpoints with hzero | ⟨v, hfind, hnumber⟩
  · left
    rw [hzero]
    decide
  cases v with
  | int n =>
    left
    have hlow := n.le_toInt
    have hhigh := n.toInt_lt
    rw [← Option.some.inj hnumber]
    exact Double.isFinite_ofInt (by omega)
  | float d =>
    obtain rfl := Option.some.inj hnumber
    obtain ⟨u, hu, hnumeral⟩ := Literal.numeral_of_parseAssignment hparse hfind
    obtain ⟨negative, r, hd, hr, hlarge⟩ := Literal.signed_of_spellsNumber hnumeral
    rw [hd]
    rcases Nat.lt_or_eq_of_le hr with hlt | heq
    · exact Or.inl (Double.isFinite_signed_iff.mpr hlt)
    · exact Or.inr ⟨decide_eq_true (Nat.le_of_eq heq.symm), (hlarge heq).mono hu⟩
  | _ => cases hnumber

/-! ## Writing it again -/

theorem finite_of_decode_encode {g : TestFile} (h : decode f.encode = .ok g) : f.points.isFinite = true := by
  obtain ⟨v, hparse, -⟩ := parse_of_decode h
  rw [encode, String.toList_ofList] at hparse
  exact isFinite_toLiteral_iff.mp ((Literal.readable_iff (isTable_toLiteral f)).mp ⟨v, hparse⟩)

/-- A file that has been read is read again from its stored text when no numeral in the text it was read from
    is too large, and exactly when its points are finite; otherwise they are infinite and its stored text is
    refused. -/
theorem reencodes_iff (h : decode t = .ok f) :
    (¬ Overflows t.toList → ∃ g, decode f.encode = .ok g ∧ f.Same g) ∧
    ((∃ g, decode f.encode = .ok g ∧ f.Same g) ↔ f.points.isFinite = true) ∧
    (f.points.isFinite = false → f.points.isInfinite = true ∧ ∃ e, decode f.encode = .error e) := by
  refine ⟨?_, ⟨?_, decode_encode⟩, ?_⟩
  · intro hsmall
    rcases points_of_decode h with hfinite | ⟨-, hlarge⟩
    · exact decode_encode hfinite
    · exact absurd hlarge hsmall
  · rintro ⟨g, hg, -⟩
    exact finite_of_decode_encode hg
  · intro hpoints
    refine ⟨?_, ?_⟩
    · rcases points_of_decode h with hfinite | ⟨hinfinite, -⟩
      · rw [hpoints] at hfinite
        cases hfinite
      · exact hinfinite
    · cases hread : decode f.encode with
      | error e => exact ⟨e, rfl⟩
      | ok g =>
        rw [finite_of_decode_encode hread] at hpoints
        cases hpoints

/-- A test file as one may write it, with a numeral for the points. -/
def withPoints (numeral : List Char) : List Char :=
  Literal.target ++ ' ' :: '=' :: ' ' :: '\x7b' ::
    (Literal.quote "hidden".toList ++ ':' :: ' ' :: (Literal.write 0 (.bool false) ++ ',' :: ' ' ::
      (Literal.quote "name".toList ++ ':' :: ' ' :: (Literal.write 0 (.text "q") ++ ',' :: ' ' ::
        (Literal.quote "points".toList ++ ':' :: ' ' :: (numeral ++ ['\x7d']))))))

/-- An entry with a value as it is written, before further entries. -/
theorem took_entry {s r rest : List Char} {k : String} {v : Literal} {es : Entries} (ht : v.All Literal.IsTable)
    (hf : v.All Literal.IsFinite)
    (hs : Literal.skipTrivia s = Literal.quote k.toList ++ ':' :: ' ' :: (Literal.write 0 v ++ ',' :: r))
    (h : Took (Literal.entries r) es rest) : Took (Literal.entries s) ((k, v) :: es) rest :=
  Literal.entries_cons hs (by decide) (Literal.value_quote hs (.colon _)) (Literal.skipTrivia_colon _)
    (Literal.value_write 0 v ht hf ((Literal.skipTrivia_space _).trans (Literal.skipTrivia_write 0 hf _)) (.comma _))
    (Literal.skipTrivia_comma _) h

theorem decode_withPoints {numeral : List Char} {v : Literal} {d : Double} (h : Literal.SpellsNumber numeral v)
    (hd : v.number? = some d) : decode (String.ofList (withPoints numeral)) = .ok ⟨"q", d, false, []⟩ := by
  have hspace : ∀ (k : String) (s : List Char),
      Literal.skipTrivia (' ' :: (Literal.quote k.toList ++ s)) = Literal.quote k.toList ++ s :=
    fun k s => (Literal.skipTrivia_space _).trans (Literal.skipTrivia_quote k.toList s)
  have hnumber : Took (Literal.value (' ' :: (numeral ++ ['\x7d']))) v ['\x7d'] :=
    Literal.value_of_spells (w := [' ']) (.number h) (.blank (by decide) .nil) (.of_separator .nil (by decide) [])
  have hpoints := Literal.entries_one (hspace "points" _) (by decide) (Literal.value_quote (hspace "points" _) (.colon _))
    (Literal.skipTrivia_colon _) hnumber (Literal.skipTrivia_closeDict [])
  have hentries := took_entry (v := .bool false) trivial trivial (Literal.skipTrivia_quote "hidden".toList _)
    (took_entry (v := .text "q") trivial trivial (hspace "name" _) hpoints)
  have hvalue := Literal.value_dict ((Literal.skipTrivia_space _).trans
    (Literal.skipTrivia_start (Literal.beginsValue_of_mem '\x7b' (by decide)).toIsStart _)) hentries
  have hkeys : ["hidden", "name", "points"].Pairwise (· < ·) := by decide
  have hsorted : Table.Sorted [("hidden", Literal.bool false), ("name", .text "q"), ("points", v)] :=
    Table.sorted_iff_keys.mpr hkeys
  rw [Table.ofEntries_eq_self hsorted] at hvalue
  have hparse : Literal.parseAssignment (withPoints numeral) =
      .ok (.dict [("hidden", .bool false), ("name", .text "q"), ("points", v)]) :=
    (Literal.parseAssignment_eq _).trans (Literal.finish_took hvalue rfl)
  rw [decode, String.toList_ofList, hparse]
  show (optional "points" .zero Literal.number? [("hidden", .bool false), ("name", .text "q"), ("points", v)] >>= fun points =>
    Except.ok (⟨"q", points, false, []⟩ : TestFile)) = _
  rw [optional_of_read rfl hd]
  rfl

/-- Ten and a half, with an underscore and an exponent. -/
theorem tenAndHalf_reencodes :
    ∃ f, decode "test = \x7b'hidden': False, 'name': 'q', 'points': 1_0.5e0\x7d" = .ok f ∧
      ∃ g, decode f.encode = .ok g ∧ f.Same g := by
  have htext : String.ofList (withPoints ['1', '_', '0', '.', '5', 'e', '0']) =
      "test = \x7b'hidden': False, 'name': 'q', 'points': 1_0.5e0\x7d" := by cbv
  have hrun : Literal.SpellsRun ['1', '_', '0', '.', '5', 'e', '0'] ['1', '0', '.', '5', 'e', '0'] true :=
    .digit (by decide) (.underscore (.digit (by decide) (.point (.digit (by decide)
      (.mark (.inl rfl) (.digit (by decide) .nil))))))
  have hdecimal : Decimal.ofText? ['1', '0', '.', '5', 'e', '0'] = some ⟨105, -1⟩ := by decide
  have hread := decode_withPoints (Literal.spellsNumber_of_decimal (.inl (by decide)) hrun hdecimal) rfl
  rw [htext] at hread
  have hfinite : (Double.signed false (Decimal.toRank ⟨105, -1⟩)).isFinite = true := by decide +kernel
  exact ⟨_, hread, (reencodes_iff hread).2.1.mpr hfinite⟩

/-- Points that are too large for a double are read and then refused. -/
theorem tooLarge_does_not_reencode :
    ∃ f, decode "test = \x7b'hidden': False, 'name': 'q', 'points': 1e400\x7d" = .ok f ∧
      ¬ ∃ g, decode f.encode = .ok g ∧ f.Same g := by
  have htext : String.ofList (withPoints ['1', 'e', '4', '0', '0']) =
      "test = \x7b'hidden': False, 'name': 'q', 'points': 1e400\x7d" := by cbv
  have hrun : Literal.SpellsRun ['1', 'e', '4', '0', '0'] ['1', 'e', '4', '0', '0'] true :=
    .digit (by decide) (.mark (.inl rfl) (.digit (by decide) (.digit (by decide) (.digit (by decide) .nil))))
  have hdecimal : Decimal.ofText? ['1', 'e', '4', '0', '0'] = some ⟨1, 400⟩ := by decide
  have hread := decode_withPoints (Literal.spellsNumber_of_decimal (.inl (by decide)) hrun hdecimal) rfl
  rw [htext] at hread
  refine ⟨_, hread, ?_⟩
  rintro ⟨g, hg, -⟩
  have hfinite := finite_of_decode_encode hg
  revert hfinite
  decide +kernel

end Handout.TestFile
