/-
  Handout.Proofs.Files.Copy — copying a directory.

  An entry goes to its path relative to where the copy began, whose names are those of the
  directories between (`Relative`). How deep one may go makes no difference to a copy that
  succeeds (`copyEntry_answersAs`).
-/

import Handout.Files.Copy
import Handout.Proofs.Files.Workspace

open Handout.Action (AnswersAs)

namespace Handout

open FileTree (namesOf)

/-- A path made of names with slashes between; the empty path has no names. -/
structure Path.Relative (p : Path) (ns : List String) : Prop where
  names : (p = "" ∧ ns = []) ∨ (ns ≠ [] ∧ namesOf p = ns)
  isName : ∀ n ∈ ns, Path.IsName n

namespace Path.Relative

variable {p base b : Path} {n : String} {ns ms : List String}

theorem nil : Relative "" [] := ⟨Or.inl ⟨rfl, rfl⟩, by simp⟩

theorem isAbsolute (h : Relative p ns) : p.isAbsolute = false := by
  rcases h.names with ⟨rfl, -⟩ | ⟨hne, hnames⟩
  · decide
  · rw [Bool.eq_false_iff]
    intro habsolute
    obtain ⟨m, ms, hm⟩ := isAbsolute_iff.mp habsolute
    exact (h.isName "" (by rw [← hnames, hm]; simp)).ne_empty rfl

theorem beginning (h : Relative p ns) : Path.beginning p = ns := by
  rcases h.names with ⟨rfl, rfl⟩ | ⟨hne, hnames⟩
  · decide
  · rw [Path.beginning, hnames, if_neg]
    intro hlast
    exact (h.isName "" (List.mem_of_getLast? hlast)).ne_empty rfl

/-- One name further down. -/
theorem step (h : Relative p ns) (hn : IsName n) : Relative (Files.relative p n) (ns ++ [n]) := by
  refine ⟨Or.inr ⟨by simp, ?_⟩, by simpa [or_imp, forall_and, hn] using h.isName⟩
  rw [Files.relative]
  rcases h.names with ⟨rfl, rfl⟩ | ⟨hne, hnames⟩
  · rw [if_pos (by decide)]
    exact hn.namesOf
  · have hp : p.isEmpty = false := by
      rw [Bool.eq_false_iff, ne_eq, String.isEmpty_iff]
      rintro rfl
      obtain ⟨m, ms, rfl⟩ := List.exists_cons_of_ne_nil hne
      refine (h.isName "" ?_).ne_empty rfl
      rw [← hnames]
      decide
    have hslash : (p ++ "/" ++ n).toList = p.toList ++ '/' :: n.toList := by
      rw [String.toList_append, String.toList_append, List.append_assoc]
      rfl
    rw [hp, if_neg (by simp), namesOf, hslash, splitSlash_append_slash, List.map_append, splitSlash_of_notMem hn.noSlash,
      List.map_singleton, String.ofList_toList, ← hnames, namesOf]

end Path.Relative

/-- A path goes on by the names of a relative one. -/
theorem Workspace.Under.join_relative {base p b : Path} {ns ms : List String} (h : Under base ns p) (hb : Path.Relative b ms) :
    Under base (ns ++ ms) (Path.join p b) :=
  ⟨(Path.isAbsolute_join hb.isAbsolute).trans h.absolute, by
    rw [Path.beginning_join hb.isAbsolute, h.names, hb.beginning, List.append_assoc]⟩

/-- A copy that succeeds does so when more depth is left. -/
theorem Files.copyEntry_answersAs {σ : Type} (fs : Files (Action σ)) (dest : Path) {depth depth' : Nat}
    (h : depth ≤ depth') (around : List String) (base : String) (source : Path) :
    AnswersAs (copyEntry fs dest depth' around base source) (copyEntry fs dest depth around base source) := by
  induction depth generalizing depth' around base source with
  | zero => exact .throw _
  | succ depth ih =>
    obtain ⟨depth', rfl⟩ := Nat.exists_eq_add_of_le' (Nat.zero_lt_of_lt h)
    refine (AnswersAs.refl _).bind fun linked => (AnswersAs.refl _).bind fun isDirectory => ?_
    split
    · refine (AnswersAs.refl _).bind fun here => ?_
      dsimp only
      split
      · exact .throw _
      · refine (AnswersAs.refl _).bind fun _ => (AnswersAs.refl _).bind fun names => ?_
        refine (AnswersAs.forIn (fun name => ?_) names).bind fun _ => .refl _
        exact ih (Nat.le_of_succ_le_succ h) _ _ _
    · exact .refl _

end Handout
