/-
  Handout.Proofs.TestFile.RoundTrip — a stored test file is read again without loss.

  What is stored of a file is a literal whose dicts are tables and whose only number is
  the points, so its text is read back as the literal (`parseAssignment_renderAssignment`)
  and the literal as the file (`decode_encode`). The points may be stored as an int,
  which loses nothing but the sign of a zero (`number?_ofDouble`).
-/

import Handout.Proofs.Literal.RoundTrip
import Handout.TestFile.Encoding

namespace Handout

/-! ## Points -/

namespace Double

theorem eqv_self (negative : Bool) (r : Nat) : (Double.signed negative r).eqv (.signed negative r) = true := by
  simp [eqv]

theorem natAbs_truncate (negative : Bool) (r : Nat) :
    (Double.signed negative r).truncate.natAbs = units r / unitsOfOne := by
  cases negative with
  | true => simp only [truncate, if_true, Int.natAbs_neg, Int.natAbs_natCast]
  | false => simp only [truncate, Bool.false_eq_true, if_false, Int.natAbs_natCast]

theorem decide_truncate_neg {negative : Bool} {r : Nat} (h : 0 < units r / unitsOfOne) :
    decide ((Double.signed negative r).truncate < 0) = negative := by
  cases negative with
  | true => simp only [truncate, if_true, decide_eq_true_eq]; omega
  | false => simp only [truncate, Bool.false_eq_true, if_false, decide_eq_false_iff_not]; omega

/-- A whole number is the double closest to the integer that it is. -/
theorem ofInt_truncate {negative : Bool} {r : Nat} (hr : r < infinityRank) (hwhole : units r % unitsOfOne = 0) :
    (Double.signed negative r).eqv (ofInt (Double.signed negative r).truncate) = true := by
  have hunits : units r / unitsOfOne * unitsOfOne = units r := Nat.div_mul_cancel (Nat.dvd_of_mod_eq_zero hwhole)
  have hnearest : nearest (units r) 1 = r := by
    have h := nearest_units (k := 1) hr (by decide)
    rwa [Nat.mul_one] at h
  rw [ofInt, natAbs_truncate, hunits, hnearest]
  rcases Nat.eq_zero_or_pos r with rfl | hpos
  · simp [eqv, position]
  · have hquotient : 0 < units r / unitsOfOne := by
      rcases Nat.eq_zero_or_pos (units r / unitsOfOne) with hzero | h
      · rw [hzero, Nat.zero_mul] at hunits
        exact absurd (units_pos hpos) (by omega)
      · exact h
    rw [decide_truncate_neg hquotient]
    exact eqv_self negative r

end Double

namespace Literal

/-- An int that stands for a double is read as the same number. -/
theorem number?_ofDouble {d : Double} (h : d.isFinite = true) :
    ∃ e, number? (ofDouble d) = some e ∧ d.eqv e = true := by
  cases d with
  | nan => cases h
  | signed negative r =>
    have hr : r < Double.infinityRank := by
      simpa [Double.isFinite, Double.isNaN, Double.isInfinite] using h
    unfold ofDouble
    simp only
    split
    · rename_i hint
      obtain ⟨hwhole, hsize⟩ := Bool.and_eq_true_iff.mp hint
      have hsize := of_decide_eq_true hsize
      refine ⟨_, rfl, ?_⟩
      rw [Int64.toInt_ofInt_of_le (by omega) (by omega)]
      exact Double.ofInt_truncate hr ((isWhole_iff hr).mp hwhole)
    · exact ⟨_, rfl, Double.eqv_self negative r⟩

theorem isTable_ofDouble (d : Double) : (ofDouble d).All IsTable := by
  unfold ofDouble
  simp only
  split <;> trivial

/-- What is not finite is no whole number, so it stays a float. -/
theorem isFinite_ofDouble_iff {d : Double} : (ofDouble d).All IsFinite ↔ d.isFinite = true := by
  unfold ofDouble
  simp only
  split
  · rename_i hint
    have hwhole := (Bool.and_eq_true_iff.mp hint).1
    refine ⟨fun _ => ?_, fun _ => trivial⟩
    cases d with
    | nan => cases hwhole
    | signed negative r =>
      have hr := of_decide_eq_true (Bool.and_eq_true_iff.mp hwhole).1
      simp [Double.isFinite, Double.isNaN, Double.isInfinite, hr]
  · rfl

theorem allItems_map {α : Type} {p : Literal → Prop} {f : α → Literal} (h : ∀ a, (f a).All p) (l : List α) :
    AllItems p (l.map f) := by
  induction l with
  | nil => trivial
  | cons a l ih => exact ⟨h a, ih⟩

end Literal

open Literal (All IsTable IsFinite)

/-! ## Cases and suites -/

theorem mapM_map_ok {α β ε : Type} {f : β → Except ε α} {g : α → β} (h : ∀ a, f (g a) = .ok a) (l : List α) :
    (l.map g).mapM f = .ok l := by
  induction l with
  | nil => rfl
  | cons a l ih =>
    rw [List.map_cons, List.mapM_cons, h, ih]
    rfl

theorem TestCase.all_toLiteral (c : TestCase) : c.toLiteral.All IsTable ∧ c.toLiteral.All IsFinite := by
  have hkeys : ["code", "hidden", "locked"].Pairwise (· < ·) := by decide
  exact ⟨⟨Table.sorted_iff_keys.mpr hkeys, trivial, trivial, trivial, trivial⟩, trivial, trivial, trivial, trivial,
    trivial⟩

theorem TestSuite.all_toLiteral (s : TestSuite) : s.toLiteral.All IsTable ∧ s.toLiteral.All IsFinite := by
  have hkeys : ["cases", "scored", "setup", "teardown", "type"].Pairwise (· < ·) := by decide
  have htables := Literal.allItems_map (fun c => (TestCase.all_toLiteral c).1) s.cases
  have hfinite := Literal.allItems_map (fun c => (TestCase.all_toLiteral c).2) s.cases
  exact ⟨⟨Table.sorted_iff_keys.mpr hkeys, ⟨trivial, htables⟩, trivial, trivial, trivial, trivial, trivial⟩, trivial,
    ⟨trivial, hfinite⟩, trivial, trivial, trivial, trivial, trivial⟩

namespace TestFile

theorem optional_of_read {α : Type} {key : String} {default a : α} {read : Literal → Option α} {es : Entries}
    {v : Literal} (hfind : Table.find? key es = some v) (hread : read v = some a) :
    optional key default read es = .ok a := by
  unfold optional
  rw [hfind]
  simp only [hread]

theorem caseOf_toLiteral (c : TestCase) : caseOf c.toLiteral = .ok c := rfl

theorem suiteOf_toLiteral (s : TestSuite) : suiteOf s.toLiteral = .ok s := by
  have hcases : (s.cases.map TestCase.toLiteral).mapM caseOf = .ok s.cases := mapM_map_ok caseOf_toLiteral s.cases
  calc suiteOf s.toLiteral
      = (s.cases.map TestCase.toLiteral).mapM caseOf >>= fun cases =>
          .ok ⟨cases, s.scored, s.setup, s.teardown, s.kind⟩ := rfl
    _ = .ok s := by rw [hcases]; rfl

/-! ## Files -/

theorem isTable_toLiteral (f : TestFile) : f.toLiteral.All IsTable := by
  have hkeys : ["hidden", "name", "points", "suites"].Pairwise (· < ·) := by decide
  have htables := Literal.allItems_map (fun s => (TestSuite.all_toLiteral s).1) f.suites
  exact ⟨Table.sorted_iff_keys.mpr hkeys, trivial, trivial, Literal.isTable_ofDouble f.points, ⟨trivial, htables⟩, trivial⟩

/-- The points are the only number. -/
theorem isFinite_toLiteral_iff {f : TestFile} : f.toLiteral.All IsFinite ↔ f.points.isFinite = true := by
  have hfinite := Literal.allItems_map (fun s => (TestSuite.all_toLiteral s).2) f.suites
  constructor
  · intro h
    obtain ⟨-, -, -, hpoints, -⟩ := h
    exact Literal.isFinite_ofDouble_iff.mp hpoints
  · intro h
    exact ⟨trivial, trivial, trivial, Literal.isFinite_ofDouble_iff.mpr h, ⟨trivial, hfinite⟩, trivial⟩

theorem ofLiteral_toLiteral {f : TestFile} (h : f.points.isFinite = true) :
    ∃ g, ofLiteral f.toLiteral = .ok g ∧ f.Same g := by
  have hsuites : (f.suites.map TestSuite.toLiteral).mapM suiteOf = .ok f.suites := mapM_map_ok suiteOf_toLiteral f.suites
  obtain ⟨e, hread, heqv⟩ := Literal.number?_ofDouble h
  have hpoints : optional "points" .zero Literal.number? [("hidden", .bool f.hidden), ("name", .text f.name),
      ("points", .ofDouble f.points), ("suites", .list (f.suites.map TestSuite.toLiteral))] = .ok e :=
    optional_of_read rfl hread
  refine ⟨{ f with points := e }, ?_, rfl, heqv, rfl, rfl⟩
  calc ofLiteral f.toLiteral
      = (f.suites.map TestSuite.toLiteral).mapM suiteOf >>= fun suites =>
          optional "points" .zero Literal.number? [("hidden", .bool f.hidden), ("name", .text f.name),
            ("points", .ofDouble f.points), ("suites", .list (f.suites.map TestSuite.toLiteral))] >>= fun points =>
          .ok ⟨f.name, points, f.hidden, suites⟩ := rfl
    _ = .ok { f with points := e } := by rw [hsuites, hpoints]; rfl

/-- The stored text of a file is read as the file. -/
theorem decode_encode {f : TestFile} (h : f.points.isFinite = true) : ∃ g, decode f.encode = .ok g ∧ f.Same g := by
  obtain ⟨g, hread, hsame⟩ := ofLiteral_toLiteral h
  refine ⟨g, ?_, hsame⟩
  have hparse : Literal.parseAssignment f.encode.toList = .ok f.toLiteral := by
    rw [encode, String.toList_ofList]
    exact Literal.parseAssignment_renderAssignment (isTable_toLiteral f) (isFinite_toLiteral_iff.mpr h)
  rw [decode, hparse]
  exact hread

/-! ## The stored form -/

/-- The stored form is read without loss: a literal whose floats are finite and whose dicts are
    tables, on its own or assigned, and a test file with finite points. -/
theorem stored_form_reads_back :
    (∀ v : Literal, v.All IsTable → v.All IsFinite →
      Literal.parse v.render = .ok v ∧ Literal.parseAssignment v.renderAssignment = .ok v) ∧
    ∀ f : TestFile, f.points.isFinite = true → ∃ g, decode f.encode = .ok g ∧ f.Same g :=
  ⟨fun _ ht hf => ⟨Literal.parse_render ht hf, Literal.parseAssignment_renderAssignment ht hf⟩,
    fun _ => decode_encode⟩

/-- A tenth inside a dict and a list, and a file that is worth minus zero. -/
theorem tenth_and_minusZero_read_back :
    (∃ v : Literal, v = .dict [("it's", .list [.float (.signed false 4591870180066957722), .null])] ∧
      Literal.parse v.render = .ok v ∧ Literal.parseAssignment v.renderAssignment = .ok v) ∧
    ∃ g, decode (encode ⟨"é\n", .signed true 0, true, [.doctest [⟨"\\'", true, false⟩]]⟩) = .ok g ∧
      g.name = "é\n" ∧ (Double.signed true 0).eqv g.points = true := by
  have htable : (Literal.dict [("it's", .list [.float (.signed false 4591870180066957722), .null])]).All IsTable :=
    ⟨Table.sorted_iff_keys.mpr (by decide), ⟨trivial, trivial, trivial, trivial⟩, trivial⟩
  have hfinite : (Literal.dict [("it's", .list [.float (.signed false 4591870180066957722), .null])]).All IsFinite :=
    ⟨trivial, ⟨trivial, show Double.isFinite _ = true by decide, trivial, trivial⟩, trivial⟩
  obtain ⟨g, hread, hname, hpoints, -⟩ := stored_form_reads_back.2 ⟨"é\n", .signed true 0, true,
    [.doctest [⟨"\\'", true, false⟩]]⟩ (by decide)
  exact ⟨⟨_, rfl, stored_form_reads_back.1 _ htable hfinite⟩, g, hread, hname.symm, hpoints⟩

end TestFile
end Handout
