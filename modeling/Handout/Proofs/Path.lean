/-
  Handout.Proofs.Path — the names of a path, and what joining and going up do to them.

  A path is its names with slashes between (`joinSlash_namesOf`). `beginning p` are the
  names that a path joined to `p` begins with: all of them, but for the empty one after
  a slash at the end (`namesOf_join`). Going up takes the last name, and the names
  around it that say nothing (`parent?_eq_some`).
-/

import Mathlib.Data.List.Basic
import Handout.Files.Tree

namespace Handout

open FileTree (namesOf)

/-- The name of an entry of a directory. -/
structure Path.IsName (n : String) : Prop where
  ne_empty : n ≠ ""
  ne_dot : n ≠ "."
  ne_dots : n ≠ ".."
  noSlash : '/' ∉ n.toList

namespace Path

instance (n : String) : Decidable (IsName n) :=
  decidable_of_iff (n ≠ "" ∧ n ≠ "." ∧ n ≠ ".." ∧ '/' ∉ n.toList)
    ⟨fun h => ⟨h.1, h.2.1, h.2.2.1, h.2.2.2⟩, fun h => ⟨h.1, h.2, h.3, h.4⟩⟩

/-! ## Taking paths apart -/

theorem splitSlash_ne_nil (cs : List Char) : splitSlash cs ≠ [] := by
  cases cs with
  | nil => simp [splitSlash]
  | cons c cs =>
    unfold splitSlash
    split
    · simp
    · split <;> simp

theorem splitSlash_cons_of_ne {c : Char} (h : c ≠ '/') (cs : List Char) :
    ∃ n ns, splitSlash cs = n :: ns ∧ splitSlash (c :: cs) = (c :: n) :: ns := by
  cases hs : splitSlash cs with
  | nil => exact absurd hs (splitSlash_ne_nil cs)
  | cons n ns => exact ⟨n, ns, rfl, by simp [splitSlash, h, hs]⟩

theorem splitSlash_append_slash (a b : List Char) : splitSlash (a ++ '/' :: b) = splitSlash a ++ splitSlash b := by
  induction a with
  | nil => simp [splitSlash]
  | cons c a ih =>
    by_cases hc : c = '/'
    · simp [splitSlash, hc, ih]
    · obtain ⟨n, ns, hs, hcons⟩ := splitSlash_cons_of_ne hc a
      rw [hcons, List.cons_append]
      simp [splitSlash, hc, ih, hs]

theorem splitSlash_of_notMem {cs : List Char} (h : '/' ∉ cs) : splitSlash cs = [cs] := by
  induction cs with
  | nil => rfl
  | cons c cs ih =>
    rw [List.mem_cons, not_or] at h
    simp [splitSlash, Ne.symm h.1, ih h.2]

theorem notMem_of_mem_splitSlash {cs n : List Char} (h : n ∈ splitSlash cs) : '/' ∉ n := by
  induction cs generalizing n with
  | nil =>
    obtain rfl : n = [] := by simpa [splitSlash] using h
    simp
  | cons c cs ih =>
    by_cases hc : c = '/'
    · rcases List.mem_cons.mp (by simpa [splitSlash, hc] using h) with rfl | h
      · simp
      · exact ih h
    · obtain ⟨m, ms, hs, hcons⟩ := splitSlash_cons_of_ne hc cs
      rcases List.mem_cons.mp (hcons ▸ h) with rfl | h
      · have hm : '/' ∉ m := ih (hs ▸ List.mem_cons_self ..)
        simp [hm, Ne.symm hc]
      · exact ih (hs ▸ List.mem_cons_of_mem _ h)

theorem joinSlash_splitSlash (cs : List Char) : joinSlash (splitSlash cs) = cs := by
  induction cs with
  | nil => rfl
  | cons c cs ih =>
    by_cases hc : c = '/'
    · subst hc
      cases hs : splitSlash cs with
      | nil => exact absurd hs (splitSlash_ne_nil cs)
      | cons n ns =>
        have hjoin : joinSlash ([] :: n :: ns) = '/' :: joinSlash (n :: ns) := rfl
        simp only [splitSlash, if_true, hs, hjoin]
        rw [← hs, ih]
    · obtain ⟨n, ns, hs, hcons⟩ := splitSlash_cons_of_ne hc cs
      rw [hcons, ← ih, hs]
      cases ns <;> rfl

theorem splitSlash_joinSlash {ns : List (List Char)} (hne : ns ≠ []) (h : ∀ n ∈ ns, '/' ∉ n) :
    splitSlash (joinSlash ns) = ns := by
  induction ns with
  | nil => exact absurd rfl hne
  | cons n ns ih =>
    have hn : splitSlash n = [n] := splitSlash_of_notMem (h n (List.mem_cons_self ..))
    cases ns with
    | nil => exact hn
    | cons m ms =>
      have hjoin : joinSlash (n :: m :: ms) = n ++ '/' :: joinSlash (m :: ms) := rfl
      rw [hjoin, splitSlash_append_slash, hn, ih (by simp) fun x hx => h x (List.mem_cons_of_mem _ hx)]
      rfl

/-- After a last character that is no slash there is a last name with it. -/
theorem splitSlash_concat (cs : List Char) {c : Char} (h : c ≠ '/') :
    ∃ ns n, splitSlash (cs ++ [c]) = ns ++ [n ++ [c]] := by
  induction cs with
  | nil => exact ⟨[], [], by simp [splitSlash, h]⟩
  | cons d cs ih =>
    obtain ⟨ns, n, hs⟩ := ih
    by_cases hd : d = '/'
    · exact ⟨[] :: ns, n, by simp [splitSlash, hd, hs]⟩
    · obtain ⟨m, ms, hm, hcons⟩ := splitSlash_cons_of_ne hd (cs ++ [c])
      rw [hs] at hm
      cases ns with
      | nil =>
        obtain ⟨rfl, rfl⟩ : n ++ [c] = m ∧ [] = ms := by simpa using hm
        exact ⟨[], d :: n, hcons⟩
      | cons l ns =>
        obtain ⟨rfl, rfl⟩ : l = m ∧ ns ++ [n ++ [c]] = ms := by simpa using hm
        exact ⟨(d :: l) :: ns, n, hcons⟩

/-! ## Names -/

theorem namesOf_ne_nil (p : Path) : namesOf p ≠ [] := by
  rw [namesOf, ne_eq, List.map_eq_nil_iff]
  exact splitSlash_ne_nil _

theorem noSlash_of_mem_namesOf {p : Path} {n : String} (h : n ∈ namesOf p) : '/' ∉ n.toList := by
  obtain ⟨cs, hcs, rfl⟩ := List.mem_map.mp h
  rw [String.toList_ofList]
  exact notMem_of_mem_splitSlash hcs

theorem namesOf_of_noSlash {n : String} (h : '/' ∉ n.toList) : namesOf n = [n] := by
  rw [namesOf, splitSlash_of_notMem h, List.map_singleton, String.ofList_toList]

theorem toList_namesOf (p : Path) : (namesOf p).map String.toList = splitSlash p.toList := by
  simp [namesOf, Function.comp_def]

theorem joinSlash_namesOf (p : Path) : joinSlash ((namesOf p).map String.toList) = p.toList := by
  rw [toList_namesOf, joinSlash_splitSlash]

theorem namesOf_joinSlash {ns : List String} (hne : ns ≠ []) (h : ∀ n ∈ ns, '/' ∉ n.toList) :
    namesOf (String.ofList (joinSlash (ns.map String.toList))) = ns := by
  rw [namesOf, String.toList_ofList, splitSlash_joinSlash (by simpa using hne) (by simpa using h), List.map_map]
  simp

/-- A path is its names. -/
theorem namesOf_inj {p q : Path} : namesOf p = namesOf q ↔ p = q := by
  constructor
  · intro h
    rw [← String.toList_inj, ← joinSlash_namesOf, ← joinSlash_namesOf q, h]
  · rintro rfl
    rfl

theorem joinSlash_append {xs : List (List Char)} (hne : xs ≠ []) (ys : List (List Char)) :
    ∃ z, joinSlash (xs ++ ys) = joinSlash xs ++ z := by
  induction xs with
  | nil => exact absurd rfl hne
  | cons x xs ih =>
    cases xs with
    | nil =>
      cases ys with
      | nil => exact ⟨[], by simp⟩
      | cons y ys => exact ⟨_, rfl⟩
    | cons x' xs =>
      obtain ⟨z, hz⟩ := ih (by simp)
      exact ⟨z, (congrArg (x ++ '/' :: ·) hz).trans (by simp [joinSlash])⟩

/-- More names make a longer path. -/
theorem utf8ByteSize_le_of_prefix {p q : Path} (h : namesOf q <+: namesOf p) : q.utf8ByteSize ≤ p.utf8ByteSize := by
  obtain ⟨rest, hrest⟩ := h
  have hne : (namesOf q).map String.toList ≠ [] := by simpa using namesOf_ne_nil q
  obtain ⟨z, hz⟩ := joinSlash_append hne (rest.map String.toList)
  rw [← List.map_append, hrest, joinSlash_namesOf, joinSlash_namesOf] at hz
  have hp : p = q ++ String.ofList z := by
    rw [← String.toList_inj, hz, String.toList_append, String.toList_ofList]
  rw [hp, String.utf8ByteSize_append]
  exact Nat.le_add_right ..

/-- The names that a path joined to this one begins with. -/
def beginning (p : Path) : List String :=
  if (namesOf p).getLast? = some "" then (namesOf p).dropLast else namesOf p

theorem namesOf_cases (p : Path) : namesOf p = beginning p ∨ namesOf p = beginning p ++ [""] := by
  unfold beginning
  split
  · rename_i h
    right
    obtain ⟨front, hfront⟩ := List.getLast?_eq_some_iff.mp h
    rw [hfront, List.dropLast_concat]
  · exact Or.inl rfl

theorem beginning_of_namesOf {p : Path} {ns : List String} {n : String} (h : namesOf p = ns ++ [n]) :
    beginning p = if n = "" then ns else ns ++ [n] := by
  rw [beginning, h, List.getLast?_concat, List.dropLast_concat]
  simp only [Option.some.injEq]

theorem isAbsolute_iff {p : Path} : p.isAbsolute = true ↔ ∃ n ns, namesOf p = "" :: n :: ns := by
  have hnames := joinSlash_namesOf p
  rw [isAbsolute, beq_iff_eq, ← hnames]
  cases hp : namesOf p with
  | nil => exact absurd hp (namesOf_ne_nil p)
  | cons m ms =>
    have hm : '/' ∉ m.toList := noSlash_of_mem_namesOf (hp ▸ List.mem_cons_self ..)
    cases ms with
    | nil =>
      constructor
      · intro h
        exact absurd (List.mem_of_head? h) hm
      · rintro ⟨n, ns, h⟩
        cases h
    | cons n ns =>
      have hjoin : joinSlash ((m :: n :: ns).map String.toList) =
          m.toList ++ '/' :: joinSlash ((n :: ns).map String.toList) := rfl
      rw [hjoin]
      constructor
      · intro h
        cases hc : m.toList with
        | nil => exact ⟨n, ns, by rw [String.toList_eq_nil_iff.mp hc]⟩
        | cons c cs =>
          rw [hc] at h hm
          obtain rfl : c = '/' := by simpa using h
          exact absurd (List.mem_cons_self ..) hm
      · rintro ⟨n', ns', h⟩
        cases h
        rfl

theorem isAbsolute_of_first {p : Path} {n : String} {ns : List String} (h : namesOf p = n :: ns) (hn : n ≠ "") :
    p.isAbsolute = false := by
  rw [Bool.eq_false_iff]
  intro habsolute
  obtain ⟨m, ms, hm⟩ := isAbsolute_iff.mp habsolute
  rw [h] at hm
  exact hn (List.cons.inj hm).1

/-! ## Joining -/

theorem join_eq {a b : Path} (hb : b.isAbsolute = false) : join a b = join a "" ++ b := by
  have hempty : isAbsolute "" = false := by decide
  rw [join, join, hb, hempty]
  simp only [Bool.false_eq_true, if_false]
  split
  · rename_i ha
    simp
  · split
    · simp
    · simp [String.append_assoc]

theorem namesOf_join {a b : Path} (hb : b.isAbsolute = false) : namesOf (join a b) = beginning a ++ namesOf b := by
  rw [join, hb]
  simp only [Bool.false_eq_true, if_false]
  by_cases ha : a = ""
  · subst ha
    have hbeginning : beginning "" = [] := by decide
    simp [hbeginning]
  · rw [if_neg (by simpa [String.isEmpty_iff] using ha)]
    obtain ⟨cs, c, hcs⟩ : ∃ cs c, a.toList = cs ++ [c] := by
      have hne : a.toList ≠ [] := by simpa [String.toList_eq_nil_iff] using ha
      exact ⟨_, _, (List.dropLast_append_getLast hne).symm⟩
    by_cases hc : c = '/'
    · subst hc
      have hnames : namesOf a = (splitSlash cs).map String.ofList ++ [""] := by
        rw [namesOf, hcs, splitSlash_append_slash]
        simp [splitSlash]
      rw [if_pos (by simp [hcs]), beginning_of_namesOf hnames, if_pos rfl, namesOf, String.toList_append, hcs,
        List.append_assoc, List.singleton_append, splitSlash_append_slash, List.map_append]
      rfl
    · obtain ⟨ns, n, hs⟩ := splitSlash_concat cs hc
      have hnames : namesOf a = ns.map String.ofList ++ [String.ofList (n ++ [c])] := by
        rw [namesOf, hcs, hs, List.map_append, List.map_singleton]
      have hne : String.ofList (n ++ [c]) ≠ "" := by
        rw [ne_eq, ← String.toList_inj]
        simp
      rw [if_neg (by simp [hcs, hc]), beginning_of_namesOf hnames, if_neg hne, ← hnames, namesOf, namesOf, namesOf,
        String.toList_append, String.toList_append, List.append_assoc]
      have hslash : "/".toList ++ b.toList = '/' :: b.toList := rfl
      rw [hslash, splitSlash_append_slash, List.map_append]

theorem beginning_join {a b : Path} (hb : b.isAbsolute = false) : beginning (join a b) = beginning a ++ beginning b := by
  obtain ⟨ns, n, hn⟩ : ∃ ns n, namesOf b = ns ++ [n] := ⟨_, _, (List.dropLast_append_getLast (namesOf_ne_nil b)).symm⟩
  have hjoin : namesOf (join a b) = (beginning a ++ ns) ++ [n] := by rw [namesOf_join hb, hn, List.append_assoc]
  rw [beginning_of_namesOf hjoin, beginning_of_namesOf hn]
  split <;> simp

theorem isAbsolute_join {a b : Path} (hb : b.isAbsolute = false) : (join a b).isAbsolute = a.isAbsolute := by
  rw [join, hb]
  simp only [Bool.false_eq_true, if_false]
  by_cases ha : a = ""
  · subst ha
    exact hb.trans (by decide)
  · rw [if_neg (by simpa [String.isEmpty_iff] using ha)]
    have hne : a.toList ≠ [] := by simpa [String.toList_eq_nil_iff] using ha
    obtain ⟨c, cs, hcs⟩ := List.exists_cons_of_ne_nil hne
    split <;> simp [isAbsolute, hcs]

theorem utf8ByteSize_join_le {a b : Path} (hb : b.isAbsolute = false) : a.utf8ByteSize ≤ (join a b).utf8ByteSize := by
  rw [join, hb]
  simp only [Bool.false_eq_true, if_false]
  split
  · rename_i ha
    rw [String.isEmpty_iff.mp ha]
    exact Nat.zero_le _
  · split <;> simp only [String.utf8ByteSize_append] <;> omega

namespace IsName

variable {n : String}

theorem namesOf (h : IsName n) : FileTree.namesOf n = [n] := namesOf_of_noSlash h.noSlash

theorem beginning (h : IsName n) : Path.beginning n = [n] := by
  have hnames : FileTree.namesOf n = [] ++ [n] := h.namesOf
  rw [beginning_of_namesOf hnames, if_neg h.ne_empty]
  rfl

theorem isAbsolute (h : IsName n) : Path.isAbsolute n = false := isAbsolute_of_first h.namesOf h.ne_empty

theorem namesOf_join (h : IsName n) (a : Path) : FileTree.namesOf (join a n) = Path.beginning a ++ [n] := by
  rw [Path.namesOf_join h.isAbsolute, h.namesOf]

theorem beginning_join (h : IsName n) (a : Path) : Path.beginning (join a n) = Path.beginning a ++ [n] := by
  rw [Path.beginning_join h.isAbsolute, h.beginning]

theorem join_ne_empty (h : IsName n) (a : Path) : join a n ≠ "" := by
  intro he
  have hnames := h.namesOf_join a
  rw [he] at hnames
  have hlast := congrArg List.getLast? hnames
  rw [List.getLast?_concat, show FileTree.namesOf "" = [""] by decide] at hlast
  exact h.ne_empty (Option.some.inj hlast).symm

end IsName

/-! ## The name at the end, and the path before it -/

/-- A name that says nothing. -/
abbrev Idle (n : String) : Prop := n = "" ∨ n = "."

theorem isIdle_iff {cs : List Char} : isIdle cs = true ↔ Idle (String.ofList cs) := by
  rw [isIdle, Bool.or_eq_true, beq_iff_eq, beq_iff_eq, Idle, ← String.toList_inj, ← String.toList_inj,
    String.toList_ofList]
  rfl

/-- What is dropped are names that say nothing, and a name stays. -/
theorem dropIdle_spec {ns : List (List Char)} (hne : ns ≠ []) :
    ∃ idle n rest, ns = idle ++ n :: rest ∧ dropIdle ns = n :: rest ∧ (∀ i ∈ idle, isIdle i = true) ∧
      (rest = [] ∨ isIdle n = false) := by
  induction ns with
  | nil => exact absurd rfl hne
  | cons n ns ih =>
    cases ns with
    | nil => exact ⟨[], n, [], rfl, rfl, by simp, Or.inl rfl⟩
    | cons m ms =>
      by_cases hn : isIdle n = true
      · obtain ⟨idle, l, rest, heq, hdrop, hidle, hlast⟩ := ih (by simp)
        refine ⟨n :: idle, l, rest, by rw [heq]; rfl, ?_, ?_, hlast⟩
        · rw [dropIdle, if_pos hn, hdrop]
        · simpa [hn] using hidle
      · refine ⟨[], n, m :: ms, rfl, ?_, by simp, Or.inr (by simpa using hn)⟩
        rw [dropIdle, if_neg hn]

theorem dropIdle_names {ns : List String} (hne : ns ≠ []) : ∃ front n idle, ns = front ++ n :: idle ∧ (∀ i ∈ idle, Idle i) ∧
    dropIdle (ns.map String.toList).reverse = n.toList :: (front.map String.toList).reverse ∧ (front = [] ∨ ¬ Idle n) := by
  obtain ⟨idle, n, rest, heq, hdrop, hidle, hlast⟩ := dropIdle_spec (show (ns.map String.toList).reverse ≠ [] by simpa using hne)
  have hnames : ns = rest.reverse.map String.ofList ++ String.ofList n :: idle.reverse.map String.ofList := by
    have hmap := congrArg (fun l => (l.reverse).map String.ofList) heq
    simpa [Function.comp_def] using hmap
  refine ⟨_, _, _, hnames, fun i hi => ?_, ?_, ?_⟩
  · obtain ⟨cs, hcs, rfl⟩ := List.mem_map.mp hi
    exact isIdle_iff.mp (hidle cs (List.mem_reverse.mp hcs))
  · rw [hdrop, String.toList_ofList]
    simp [Function.comp_def]
  · rw [← isIdle_iff]
    exact hlast.imp (by rintro rfl; rfl) (by simp)

/-- The names of a path up to its last one, and what says nothing after it. -/
theorem reversed_spec (p : Path) : ∃ front n idle, namesOf p = front ++ n :: idle ∧ (∀ i ∈ idle, Idle i) ∧
    reversed p = n.toList :: (front.map String.toList).reverse ∧ (front = [] ∨ ¬ Idle n) := by
  rw [reversed, ← toList_namesOf]
  exact dropIdle_names (namesOf_ne_nil p)

theorem isName_of_fileName? {p : Path} {n : String} (h : fileName? p = some n) : IsName n := by
  obtain ⟨front, m, idle, hnames, -, hreversed, -⟩ := reversed_spec p
  have hslash : '/' ∉ m.toList := noSlash_of_mem_namesOf (p := p) (by rw [hnames]; simp)
  rw [fileName?, hreversed] at h
  simp only at h
  split at h
  · cases h
  · rename_i hnot
    rw [Bool.or_eq_true, not_or, isIdle_iff, beq_iff_eq, String.ofList_toList, Idle, not_or] at hnot
    rw [String.ofList_toList] at h
    obtain rfl := Option.some.inj h
    refine ⟨hnot.1.1, hnot.1.2, ?_, hslash⟩
    rintro rfl
    exact hnot.2 (by decide)

/-- A path whose last name is not empty, and one with more names after these. -/
theorem isAbsolute_congr {p q : Path} {x : List String} (h : namesOf p = namesOf q ++ x)
    (hlast : (namesOf q).getLast? ≠ some "") : q.isAbsolute = p.isAbsolute := by
  rw [Bool.eq_iff_iff, isAbsolute_iff, isAbsolute_iff, h]
  cases hq : namesOf q with
  | nil => exact absurd hq (namesOf_ne_nil q)
  | cons m ms =>
    cases ms with
    | nil =>
      have hm : m ≠ "" := fun he => hlast (by rw [hq, he]; rfl)
      simp [hm]
    | cons l ls => simp

/-- Going up takes the last name and what says nothing before and after it. -/
theorem parent?_eq_some {p q : Path} (h : parent? p = some q) :
    ∃ before n after, namesOf p = beginning q ++ before ++ n :: after ∧ (∀ i ∈ before, Idle i) ∧
      (∀ i ∈ after, Idle i) ∧ q.isAbsolute = p.isAbsolute := by
  obtain ⟨front, n, after, hnames, hafter, hreversed, -⟩ := reversed_spec p
  rw [parent?, hreversed] at h
  by_cases hfront : front = []
  · subst hfront
    simp only [List.map_nil, List.reverse_nil, beq_iff_eq] at h
    split at h
    · cases h
    · rename_i hn
      cases h
      refine ⟨[], n, after, hnames, by simp, hafter, ?_⟩
      rw [isAbsolute_of_first hnames fun he => hn (by rw [he]; rfl)]
      decide
  · have hne : (front.map String.toList).reverse ≠ [] := by simpa using hfront
    -- the names in front: those of the path above, and then some that say nothing
    obtain ⟨upper, m, before, rfl, hbefore, hdrop, hlast⟩ := dropIdle_names hfront
    obtain ⟨k, ks, hcons⟩ := List.exists_cons_of_ne_nil hne
    rw [hcons] at h hdrop
    simp only [hdrop] at h
    have hsplit : namesOf p = upper ++ [m] ++ (before ++ n :: after) := by rw [hnames]; simp
    split at h
    · rename_i hroot
      cases h
      obtain ⟨rfl, rfl⟩ : m = "" ∧ upper = [] := by simpa [String.toList_eq_nil_iff] using hroot
      have hbeginning : beginning "/" = [""] := by decide
      have habsolute : isAbsolute "/" = true := by decide
      refine ⟨before, n, after, by rw [hnames, hbeginning]; rfl, hbefore, hafter, ?_⟩
      obtain ⟨l, ls, hrest⟩ := List.exists_cons_of_ne_nil (show before ++ n :: after ≠ [] by simp)
      rw [habsolute, eq_comm, isAbsolute_iff]
      exact ⟨l, ls, by rw [hsplit, hrest]; rfl⟩
    · rename_i hroot
      cases h
      have hm : m ≠ "" := by
        rintro rfl
        refine hroot ?_
        rw [hlast.resolve_right fun hnot => hnot (Or.inl rfl)]
        rfl
      have hslash : ∀ x ∈ upper ++ [m], '/' ∉ x.toList := fun x hx =>
        noSlash_of_mem_namesOf (hsplit ▸ List.mem_append_left _ hx)
      have hq := namesOf_joinSlash (by simp) hslash
      rw [List.map_append, List.map_singleton] at hq
      simp only [List.reverse_cons, List.reverse_reverse]
      refine ⟨before, n, after, ?_, hbefore, hafter, isAbsolute_congr (hsplit.trans (by rw [hq])) (by simpa [hq] using hm)⟩
      rw [hnames, beginning_of_namesOf hq, if_neg hm]
      simp

namespace IsName

variable {n : String}

theorem notIdle (h : IsName n) : ¬ Idle n := fun hidle => hidle.elim h.ne_empty h.ne_dot

/-- The names of a path joined to another end with its name. -/
theorem reversed_join (h : IsName n) (a : Path) :
    reversed (join a n) = n.toList :: ((Path.beginning a).map String.toList).reverse := by
  obtain ⟨front, m, idle, hnames, hidle, hreversed, -⟩ := reversed_spec (join a n)
  rw [h.namesOf_join] at hnames
  rcases List.eq_nil_or_concat' idle with rfl | ⟨idle, i, rfl⟩
  · obtain ⟨rfl, hlast⟩ := List.append_inj' hnames rfl
    obtain rfl : n = m := by simpa using hlast
    exact hreversed
  · rw [← List.cons_append, ← List.append_assoc] at hnames
    obtain rfl : n = i := by simpa using (List.append_inj' hnames rfl).2
    exact absurd (hidle n (by simp)) h.notIdle

theorem fileName?_join (h : IsName n) (a : Path) : fileName? (join a n) = some n := by
  have hdots : (n.toList == ['.', '.']) = false := beq_eq_false_iff_ne.mpr fun he =>
    h.ne_dots (String.toList_inj.mp (he.trans (by decide)))
  have hidle : isIdle n.toList = false := by
    rw [Bool.eq_false_iff, ne_eq, isIdle_iff, String.ofList_toList]
    exact h.notIdle
  rw [fileName?, h.reversed_join]
  simp [hdots, hidle]

/-- Going up from a joined path leads back, but for what says nothing at the end. -/
theorem parent?_join (h : IsName n) (a : Path) : ∃ q before, parent? (join a n) = some q ∧
    Path.beginning a = Path.beginning q ++ before ∧ (∀ i ∈ before, Idle i) ∧ q.isAbsolute = Path.isAbsolute a := by
  obtain ⟨q, hq⟩ : ∃ q, parent? (join a n) = some q := by
    rw [parent?, h.reversed_join]
    split
    · contradiction
    · rename_i m hm
      obtain ⟨rfl, -⟩ := List.cons.inj hm
      have hne : (n.toList == []) = false := beq_eq_false_iff_ne.mpr fun he => h.ne_empty (String.toList_eq_nil_iff.mp he)
      exact ⟨_, if_neg (by simp [hne])⟩
    · split <;> exact ⟨_, rfl⟩
  obtain ⟨before, m, after, hnames, hbefore, hafter, habsolute⟩ := parent?_eq_some hq
  rw [h.namesOf_join] at hnames
  refine ⟨q, before, hq, ?_, hbefore, habsolute.trans (isAbsolute_join h.isAbsolute)⟩
  rcases List.eq_nil_or_concat' after with rfl | ⟨after, i, rfl⟩
  · exact (List.append_inj' hnames rfl).1
  · rw [← List.cons_append, ← List.append_assoc] at hnames
    obtain rfl : n = i := by simpa using (List.append_inj' hnames rfl).2
    exact absurd (hafter n (by simp)) h.notIdle

end IsName

/-- A path ends in a name, or in what says nothing or goes up. -/
theorem join_or_unnamed (p : Path) :
    (∃ a n, IsName n ∧ p = join a n) ∨ ∃ ns n, namesOf p = ns ++ [n] ∧ (Idle n ∨ n = "..") := by
  obtain ⟨ns, n, hnames⟩ := (List.eq_nil_or_concat' (namesOf p)).resolve_left (namesOf_ne_nil p)
  by_cases hn : Idle n ∨ n = ".."
  · exact Or.inr ⟨ns, n, hnames, hn⟩
  · rw [not_or, Idle, not_or] at hn
    have hname : IsName n := ⟨hn.1.1, hn.1.2, hn.2, noSlash_of_mem_namesOf (p := p) (by rw [hnames]; simp)⟩
    obtain ⟨a, ha⟩ : ∃ a, beginning a = ns := by
      by_cases hempty : ns = []
      · exact ⟨"", hempty ▸ by decide⟩
      · -- the names before the last one, and a slash after them
        have hslash : ∀ m ∈ ns ++ [""], '/' ∉ m.toList := by
          intro m hm
          rcases List.mem_append.mp hm with hm | hm
          · exact noSlash_of_mem_namesOf (p := p) (by rw [hnames]; exact List.mem_append_left _ hm)
          · rw [List.mem_singleton.mp hm]
            decide
        exact ⟨_, (beginning_of_namesOf (namesOf_joinSlash (by simp) hslash)).trans (if_pos rfl)⟩
    refine Or.inl ⟨a, n, hname, namesOf_inj.mp ?_⟩
    rw [hname.namesOf_join, ha, hnames]

end Path
end Handout
