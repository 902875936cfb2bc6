/-
  Handout.Proofs.Files.Workspace — what the operations on files do, and to which places.

  A path leads to a directory when there is a way along all its names (`LeadsTo`); a path
  joined to it goes on from there (`landing_under`). Each change is given by where it acts
  (`store?_eq_some`, `rename?_eq_some`, and so on), so that nothing after this module looks
  into it.
-/

import Mathlib.Data.List.TakeWhile
import Handout.Files.Workspace
import Handout.Proofs.Action
import Handout.Proofs.Files.Walk

open Handout.Action

namespace Handout.Workspace

open FileTree (Way walk walk_nil walk_idle namesOf maxLinks maxPath Landing Grown)

variable {w w' : Workspace} {p q base : Path} {follow : Bool} {left : Nat} {loc r : Location} {seen : List Location}
  {ns : List String}

/-! ## Landings -/

/-- Where the names of a path are followed from. -/
def start (w : Workspace) (p : Path) : Location := if Path.isAbsolute p then [] else w.cwd

theorem landing_eq (hp : p ≠ "") (hsize : p.utf8ByteSize ≤ maxPath) :
    w.tree.landing w.cwd follow p = walk w.tree follow maxLinks (w.start p) (namesOf p) := by
  rw [FileTree.landing, if_neg hp, if_neg (Nat.not_lt.mpr hsize)]
  rfl

theorem landing_of_tooLong (hsize : maxPath < p.utf8ByteSize) : w.tree.landing w.cwd follow p = .blocked .tooLong := by
  have hp : p ≠ "" := by
    rintro rfl
    exact absurd hsize (by decide)
  rw [FileTree.landing, if_neg hp, if_pos hsize]

theorem fits_of_landing {l : Landing} (h : w.tree.landing w.cwd follow p = l) (hmissing : l ≠ .missing)
    (hblocked : ∀ why, l ≠ .blocked why) :
    p ≠ "" ∧ p.utf8ByteSize ≤ maxPath ∧ walk w.tree follow maxLinks (w.start p) (namesOf p) = l := by
  by_cases hp : p = ""
  · rw [FileTree.landing, if_pos hp] at h
    exact absurd h.symm hmissing
  · by_cases hsize : maxPath < p.utf8ByteSize
    · rw [landing_of_tooLong hsize] at h
      exact absurd h.symm (hblocked _)
    · exact ⟨hp, Nat.not_lt.mp hsize, by rw [← landing_eq hp (Nat.not_lt.mp hsize), h]⟩

theorem nodeAt?_eq_some {l : Landing} {node : Node} :
    w.nodeAt? l = some node ↔ ∃ loc, l = .found loc ∧ w.tree.node? loc = some node := by
  cases l <;> simp [nodeAt?]

/-- What a path shows: the directory or the file that it leads to. -/
def shows (w : Workspace) (p : Path) : Option Node := w.nodeAt? (w.follow p)

theorem shows_of_found (h : w.follow p = .found loc) : w.shows p = w.tree.node? loc := by
  rw [shows, h]
  rfl

/-- The places that are looked at when a path is followed. -/
def passed (w : Workspace) (p : Path) : List Location := w.tree.lookups true maxLinks (w.start p) (namesOf p)

theorem start_congr (hcwd : w'.cwd = w.cwd) (p : Path) : w'.start p = w.start p := by
  rw [start, start, hcwd]

/-- Workspaces that agree where one of them is looked at lead to the same place. -/
theorem follow_congr (hcwd : w'.cwd = w.cwd) (hagree : ∀ l ∈ w.passed p, w'.tree.node? l = w.tree.node? l) :
    w'.follow p = w.follow p := by
  rw [Workspace.follow, Workspace.follow, FileTree.landing, FileTree.landing, hcwd]
  split
  · rfl
  · split
    · rfl
    · exact FileTree.walk_congr hagree

theorem passed_congr (hcwd : w'.cwd = w.cwd) (hagree : ∀ l ∈ w.passed p, w'.tree.node? l = w.tree.node? l) :
    w'.passed p = w.passed p := by
  rw [passed, passed, start_congr hcwd]
  exact FileTree.lookups_congr hagree

/-- There is a way along the names of a path that leads to the directory at `r`. -/
def LeadsTo (w : Workspace) (p : Path) (left : Nat) (r : Location) (seen : List Location) : Prop :=
  w.tree.Way maxLinks (w.start p) (Path.beginning p) left r seen

/-- A path that goes on from another by some names, perhaps with a slash at its end. -/
structure Under (base : Path) (ns : List String) (p : Path) : Prop where
  absolute : p.isAbsolute = base.isAbsolute
  names : Path.beginning p = Path.beginning base ++ ns

namespace Under

theorem join (h : Under base ns p) {n : String} (hn : Path.IsName n) : Under base (ns ++ [n]) (Path.join p n) :=
  ⟨(Path.isAbsolute_join hn.isAbsolute).trans h.absolute, by rw [hn.beginning_join, h.names, List.append_assoc]⟩

theorem refl (p : Path) : Under p [] p := ⟨rfl, (List.append_nil _).symm⟩

theorem start_eq (h : Under base ns p) : w.start p = w.start base := by
  rw [start, start, h.absolute]

theorem namesOf_cases (h : Under base ns p) :
    ∃ slash, (slash = [] ∨ slash = [""]) ∧ namesOf p = Path.beginning base ++ (ns ++ slash) := by
  rcases Path.namesOf_cases p with hp | hp
  · exact ⟨[], Or.inl rfl, by rw [hp, h.names, List.append_nil]⟩
  · exact ⟨[""], Or.inr rfl, by rw [hp, h.names, List.append_assoc]⟩

theorem ne_empty (h : Under base ns p) (hns : ns ≠ []) : p ≠ "" := by
  rintro rfl
  have hnames := h.names
  rw [show Path.beginning "" = [] by decide] at hnames
  exact hns (List.append_eq_nil_iff.mp hnames.symm).2

end Under

/-- From where a path leads to, one goes on. -/
theorem landing_under (h : w.LeadsTo base left r seen) (hp : Under base ns p) (hns : ns ≠ []) :
    (maxPath < p.utf8ByteSize ∧ w.tree.landing w.cwd follow p = .blocked .tooLong) ∨
    (p.utf8ByteSize ≤ maxPath ∧ ∃ slash, (slash = [] ∨ slash = [""]) ∧
      namesOf p = Path.beginning base ++ (ns ++ slash) ∧
      w.tree.landing w.cwd follow p = walk w.tree follow left r (ns ++ slash)) := by
  by_cases hsize : maxPath < p.utf8ByteSize
  · exact Or.inl ⟨hsize, landing_of_tooLong hsize⟩
  · obtain ⟨slash, hslash, hnames⟩ := hp.namesOf_cases
    refine Or.inr ⟨Nat.not_lt.mp hsize, slash, hslash, hnames, ?_⟩
    rw [landing_eq (hp.ne_empty hns) (Nat.not_lt.mp hsize), hnames, hp.start_eq, h.walk (Or.inl (by simp [hns]))]

/-- A path that leads to a directory is followed there. -/
theorem follow_of_leadsTo (h : w.LeadsTo p left r seen) (hp : p ≠ "") (hsize : p.utf8ByteSize ≤ maxPath) :
    w.follow p = .found r := by
  obtain ⟨slash, hslash, hnames⟩ := (Under.refl p).namesOf_cases
  rw [Workspace.follow, landing_eq hp hsize, hnames, List.nil_append, h.walk (Or.inr rfl), FileTree.walk_slash hslash]

/-- What is looked at along a path that leads to a directory is what is seen on the way. -/
theorem LeadsTo.passed_eq (h : w.LeadsTo p left r seen) : w.passed p = seen := by
  obtain ⟨slash, hslash, hnames⟩ := (Under.refl p).namesOf_cases
  have hnone : w.tree.lookups true left r slash = [] := by
    rcases hslash with rfl | rfl
    · exact FileTree.lookups_nil
    · rw [FileTree.lookups_idle (Or.inl rfl), FileTree.lookups_nil]
  rw [passed, hnames, List.nil_append, FileTree.Way.lookups h (Or.inr rfl), hnone, List.append_nil]

/-! ## Slashes at the end -/

theorem splitSlash_append_slashes (cs : List Char) (k : Nat) :
    Path.splitSlash (cs ++ List.replicate k '/') = Path.splitSlash cs ++ List.replicate k [] := by
  induction k with
  | zero => simp
  | succ k ih =>
    rw [List.replicate_succ', ← List.append_assoc, Path.splitSlash_append_slash, ih, List.replicate_succ',
      List.append_assoc]
    rfl

/-- A path that is more than slashes has a last name, and empty ones after it. -/
theorem withoutSlashes_cases (p : Path) :
    (∃ k front n, namesOf p = namesOf (withoutSlashes p) ++ List.replicate k "" ∧
      namesOf (withoutSlashes p) = front ++ [n] ∧ n ≠ "") ∨
    (withoutSlashes p = p ∧ ∀ n ∈ namesOf p, n = "") := by
  have hsplit := List.takeWhile_append_dropWhile (p := fun c => c == '/') (l := p.toList.reverse)
  obtain ⟨k, hk⟩ : ∃ k, p.toList.reverse.takeWhile (fun c => c == '/') = List.replicate k '/' := by
    refine ⟨_, List.eq_replicate_iff.mpr ⟨rfl, fun c hc => ?_⟩⟩
    simpa using List.mem_takeWhile_imp hc
  have hchars : p.toList = (p.toList.reverse.dropWhile fun c => c == '/').reverse ++ List.replicate k '/' := by
    have hreversed := congrArg List.reverse hsplit
    rw [hk, List.reverse_append, List.reverse_replicate, List.reverse_reverse] at hreversed
    exact hreversed.symm
  cases hdrop : p.toList.reverse.dropWhile (fun c => c == '/') with
  | nil =>
    rw [hdrop] at hchars
    refine Or.inr ⟨by simp only [withoutSlashes, hdrop], ?_⟩
    have hnames : namesOf p = ((Path.splitSlash [] ++ List.replicate k []).map String.ofList) := by
      rw [namesOf, hchars]
      exact congrArg (List.map String.ofList) (splitSlash_append_slashes [] k)
    intro n hn
    rw [hnames] at hn
    obtain ⟨cs, hcs, rfl⟩ := List.mem_map.mp hn
    obtain rfl : cs = [] := by
      rcases List.mem_append.mp hcs with hcs | hcs
      · simpa [Path.splitSlash] using hcs
      · exact List.eq_of_mem_replicate hcs
    rfl
  | cons c cs =>
    have hc : c ≠ '/' := by
      have hhead := List.head?_dropWhile_not (fun c => c == '/') p.toList.reverse
      rw [hdrop] at hhead
      simpa using hhead
    have hwithout : withoutSlashes p = String.ofList (c :: cs).reverse := by simp only [withoutSlashes, hdrop]
    obtain ⟨front, n, hs⟩ := Path.splitSlash_concat cs.reverse hc
    have hnames : namesOf (withoutSlashes p) = front.map String.ofList ++ [String.ofList (n ++ [c])] := by
      rw [hwithout, namesOf, String.toList_ofList, List.reverse_cons, hs]
      simp
    refine Or.inl ⟨k, _, _, ?_, hnames, ?_⟩
    · rw [hwithout, namesOf, namesOf, hchars, hdrop, splitSlash_append_slashes, String.toList_ofList, List.map_append,
        List.map_replicate]
    · rw [ne_eq, ← String.toList_inj]
      simp

theorem withoutSlashes_isAbsolute (p : Path) : (withoutSlashes p).isAbsolute = p.isAbsolute := by
  rcases withoutSlashes_cases p with ⟨k, front, n, hnames, hlast, hn⟩ | ⟨hsame, -⟩
  · refine Path.isAbsolute_congr hnames ?_
    rw [hlast, List.getLast?_concat]
    simpa using hn
  · rw [hsame]

/-- A path that ends with a name has no slash there. -/
theorem withoutSlashes_join {n : String} (hn : Path.IsName n) (a : Path) :
    withoutSlashes (Path.join a n) = Path.join a n := by
  rcases withoutSlashes_cases (Path.join a n) with ⟨k, front, m, hnames, -, -⟩ | ⟨hsame, -⟩
  · cases k with
    | zero =>
      rw [List.replicate_zero, List.append_nil] at hnames
      exact (Path.namesOf_inj.mp hnames).symm
    | succ k =>
      rw [hn.namesOf_join, List.replicate_succ', ← List.append_assoc] at hnames
      exact absurd (by simpa using (List.append_inj' hnames rfl).2) hn.ne_empty
  · exact hsame

/-- One slash after a name. -/
theorem withoutSlashes_join_slash {n : String} (hn : Path.IsName n) (a : Path) :
    withoutSlashes (Path.join (Path.join a n) "") = Path.join a n := by
  have hp : namesOf (Path.join (Path.join a n) "") = Path.beginning a ++ [n] ++ [""] := by
    rw [Path.namesOf_join (by decide), hn.beginning_join]
    rfl
  rcases withoutSlashes_cases (Path.join (Path.join a n) "") with ⟨k, front, m, hnames, hfront, hm⟩ | ⟨-, hall⟩
  · rw [hp, hfront] at hnames
    cases k with
    | zero =>
      rw [List.replicate_zero, List.append_nil] at hnames
      exact absurd (by simpa using (List.append_inj' hnames rfl).2.symm) hm
    | succ k =>
      rw [List.replicate_succ', ← List.append_assoc] at hnames
      have hrest := (List.append_inj' hnames rfl).1
      cases k with
      | zero => rw [← Path.namesOf_inj, hfront, hn.namesOf_join, hrest, List.replicate_zero, List.append_nil]
      | succ k =>
        rw [List.replicate_succ', ← List.append_assoc] at hrest
        exact absurd (by simpa using (List.append_inj' hrest rfl).2) hn.ne_empty
  · exact absurd (hall n (by rw [hp]; simp)) hn.ne_empty

theorem endsInDots_join {n : String} (hn : Path.IsName n) (a : Path) : endsInDots (Path.join a n) = false := by
  have hne : (n == "") = false := beq_eq_false_iff_ne.mpr hn.ne_empty
  rw [endsInDots, hn.namesOf_join, List.reverse_append]
  simp [hne, hn.ne_dot, hn.ne_dots]

end Handout.Workspace
