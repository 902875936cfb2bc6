/-
  Handout.Proofs.Files.Walk — following names through a tree.

  `walk_induction` is the induction on the names that are followed, with a case for each kind
  of name and for each thing that stands at one.

  `Way t links loc ns left r seen` says that the names `ns` lead from the directory at `loc`
  to the directory at `r`, which takes `links - left` links, and that `seen` are the
  places that are looked at. Names after such a way are followed from `r` on (`Way.walk`),
  a way stays one in a tree that agrees at the places seen (`Way.congr`), and
  whatever is found behind some names is found by a way along them
  (`way_of_walk_append`, `way_of_directory`).

  `lookups` are all places that are looked at, up to the last one: trees that agree there
  lead to the same landing (`walk_congr`), and where something is found something stands
  at all of them (`node?_of_mem_lookups`). Names that end in none that is looked up lead to a
  directory, if anywhere (`walk_unnamed`).
-/

import Handout.Proofs.Files.Tree

namespace Handout.FileTree

variable {t t' : FileTree} {follow : Bool} {links left : Nat} {loc r : Location} {n : String} {ns rest : List String}
  {seen : List Location}

/-! ## One name after the other -/

/-- Where the names behind a link start. -/
def linkStart (target : Path) (loc : Location) : Location := if Path.isAbsolute target then [] else loc

theorem node?_linkStart (hloc : t.node? loc = some .directory) (target : Path) :
    t.node? (linkStart target loc) = some .directory := by
  unfold linkStart
  split
  · rfl
  · exact hloc

theorem walk_nil : walk t follow links loc [] = .found loc := by
  cases links <;> rfl

theorem walk_idle (hn : Path.Idle n) : walk t follow links loc (n :: rest) = walk t follow links loc rest := by
  cases links <;> exact if_pos hn

/-- Names that say nothing lead nowhere else. -/
theorem walk_of_idle (h : ∀ n ∈ ns, n = "") : walk t follow links loc ns = .found loc := by
  induction ns with
  | nil => exact walk_nil
  | cons n ns ih => rw [walk_idle (Or.inl (h n (List.mem_cons_self ..))), ih fun m hm => h m (List.mem_cons_of_mem _ hm)]

theorem walk_up : walk t follow links loc (".." :: rest) = walk t follow links loc.dropLast rest := by
  cases links <;> rfl

/-- A name that is looked up: neither idle nor two dots. -/
structure Named (n : String) : Prop where
  notIdle : ¬ Path.Idle n
  ne_dots : n ≠ ".."

theorem name_cases (n : String) : Path.Idle n ∨ n = ".." ∨ Named n := by
  by_cases hidle : Path.Idle n
  · exact Or.inl hidle
  · by_cases hdots : n = ".."
    · exact Or.inr (Or.inl hdots)
    · exact Or.inr (Or.inr ⟨hidle, hdots⟩)

theorem Named.of_isName (h : Path.IsName n) : Named n := ⟨h.notIdle, h.ne_dots⟩

theorem Fits.named (h : Fits n) : Named n := .of_isName h.isName

theorem walk_tooLong (hn : Named n) (hlong : maxName < n.utf8ByteSize) :
    walk t follow links loc (n :: rest) = .blocked .tooLong := by
  cases links <;> rw [walk, walkWith, if_neg hn.notIdle, if_neg hn.ne_dots, if_pos hlong]

theorem walk_none (hn : Named n) (hshort : n.utf8ByteSize ≤ maxName) (hnode : t.node? (loc ++ [n]) = none) :
    walk t follow links loc (n :: rest) = if rest.all (· == "") then .vacant (loc ++ [n]) (! rest.isEmpty) else .missing := by
  cases links <;> rw [walk, walkWith, if_neg hn.notIdle, if_neg hn.ne_dots, if_neg (Nat.not_lt.mpr hshort)] <;>
    simp only [hnode]

theorem walk_directory (hn : Named n) (hshort : n.utf8ByteSize ≤ maxName)
    (hnode : t.node? (loc ++ [n]) = some .directory) :
    walk t follow links loc (n :: rest) = walk t follow links (loc ++ [n]) rest := by
  cases links <;>
    (rw [walk, walkWith, if_neg hn.notIdle, if_neg hn.ne_dots, if_neg (Nat.not_lt.mpr hshort)]; simp only [hnode])

theorem walk_file {c : Content} (hn : Named n) (hshort : n.utf8ByteSize ≤ maxName)
    (hnode : t.node? (loc ++ [n]) = some (.file c)) :
    walk t follow links loc (n :: rest) = if rest.isEmpty then .found (loc ++ [n]) else .blocked .notDirectory := by
  cases links <;> rw [walk, walkWith, if_neg hn.notIdle, if_neg hn.ne_dots, if_neg (Nat.not_lt.mpr hshort)] <;>
    simp only [hnode]

/-- A link that is followed takes one of those left. -/
theorem walk_link {target : Path} (hn : Named n) (hshort : n.utf8ByteSize ≤ maxName)
    (hnode : t.node? (loc ++ [n]) = some (.link target)) :
    walk t follow links loc (n :: rest) =
      if rest.isEmpty && ! follow then .found (loc ++ [n])
      else if target = "" then .missing
      else match links with
        | 0 => .blocked .tooManyLinks
        | links + 1 => walk t follow links (linkStart target loc) (namesOf target ++ rest) := by
  cases links with
  | zero =>
    rw [walk, walkWith, if_neg hn.notIdle, if_neg hn.ne_dots, if_neg (Nat.not_lt.mpr hshort)]
    simp only [hnode]
  | succ links =>
    rw [walk, walkWith, if_neg hn.notIdle, if_neg hn.ne_dots, if_neg (Nat.not_lt.mpr hshort)]
    simp only [hnode]
    rfl

/-- The cases of following names, one after the other. Behind a link there are other names, and fewer links are left. -/
theorem walk_induction (t : FileTree) {motive : Nat → Location → List String → Prop}
    (nil : ∀ {links : Nat} {loc : Location}, motive links loc [])
    (idle : ∀ {links : Nat} {loc : Location} {n : String} {ns : List String}, Path.Idle n → motive links loc ns →
      motive links loc (n :: ns))
    (up : ∀ {links : Nat} {loc : Location} {ns : List String}, motive links loc.dropLast ns → motive links loc (".." :: ns))
    (tooLong : ∀ {links : Nat} {loc : Location} {n : String} {ns : List String}, Named n → maxName < n.utf8ByteSize →
      motive links loc (n :: ns))
    (absent : ∀ {links : Nat} {loc : Location} {n : String} {ns : List String}, Named n → n.utf8ByteSize ≤ maxName →
      t.node? (loc ++ [n]) = none → motive links loc (n :: ns))
    (directory : ∀ {links : Nat} {loc : Location} {n : String} {ns : List String}, Named n → n.utf8ByteSize ≤ maxName →
      t.node? (loc ++ [n]) = some .directory → motive links (loc ++ [n]) ns → motive links loc (n :: ns))
    (file : ∀ {links : Nat} {loc : Location} {n : String} {ns : List String} {c : Content}, Named n →
      n.utf8ByteSize ≤ maxName → t.node? (loc ++ [n]) = some (.file c) → motive links loc (n :: ns))
    (link : ∀ {links : Nat} {loc : Location} {n : String} {ns : List String} {target : Path}, Named n →
      n.utf8ByteSize ≤ maxName → t.node? (loc ++ [n]) = some (.link target) →
      (∀ k, links = k + 1 → motive k (linkStart target loc) (namesOf target ++ ns)) → motive links loc (n :: ns))
    (links : Nat) (loc : Location) (ns : List String) : motive links loc ns := by
  induction links using Nat.strongRecOn generalizing loc ns with
  | ind links ihLinks =>
    induction ns generalizing loc with
    | nil => exact nil
    | cons n ns ih =>
      rcases name_cases n with hidle | rfl | hn
      · exact idle hidle (ih loc)
      · exact up (ih _)
      · by_cases hlong : maxName < n.utf8ByteSize
        · exact tooLong hn hlong
        · have hshort := Nat.not_lt.mp hlong
          cases hnode : t.node? (loc ++ [n]) with
          | none => exact absent hn hshort hnode
          | some node =>
            cases node with
            | directory => exact directory hn hshort hnode (ih _)
            | file c => exact file hn hshort hnode
            | link target => exact link hn hshort hnode fun k hk => ihLinks k (by omega) _ _

/-! ## Ways -/

inductive Way (t : FileTree) : Nat → Location → List String → Nat → Location → List Location → Prop
  | nil {links : Nat} {loc : Location} : Way t links loc [] links loc []
  | idle {links left : Nat} {loc r : Location} {n : String} {ns : List String} {seen : List Location} :
      Path.Idle n → Way t links loc ns left r seen → Way t links loc (n :: ns) left r seen
  | up {links left : Nat} {loc r : Location} {ns : List String} {seen : List Location} :
      Way t links loc.dropLast ns left r seen → Way t links loc (".." :: ns) left r seen
  | down {links left : Nat} {loc r : Location} {n : String} {ns : List String} {seen : List Location} :
      Named n → n.utf8ByteSize ≤ maxName → t.node? (loc ++ [n]) = some .directory →
      Way t links (loc ++ [n]) ns left r seen → Way t links loc (n :: ns) left r ((loc ++ [n]) :: seen)
  | link {links left : Nat} {loc r : Location} {n target : String} {ns : List String} {seen : List Location} :
      Named n → n.utf8ByteSize ≤ maxName → t.node? (loc ++ [n]) = some (.link target) → target ≠ "" →
      Way t links (linkStart target loc) (namesOf target ++ ns) left r seen →
      Way t (links + 1) loc (n :: ns) left r ((loc ++ [n]) :: seen)

namespace Way

/-- Names after a way are followed from where it leads to. -/
theorem walk (h : Way t links loc ns left r seen) (hrest : rest ≠ [] ∨ follow = true) :
    FileTree.walk t follow links loc (ns ++ rest) = FileTree.walk t follow left r rest := by
  induction h with
  | nil => rfl
  | idle hn _ ih => rw [List.cons_append, walk_idle hn, ih]
  | up _ ih => rw [List.cons_append, walk_up, ih]
  | down hn hshort hnode _ ih => rw [List.cons_append, walk_directory hn hshort hnode, ih]
  | @link _ _ _ _ n target ns _ hn hshort hnode htarget _ ih =>
    have hfollowed : ((ns ++ rest).isEmpty && ! follow) = false := by
      rcases hrest with hrest | rfl
      · simp [hrest]
      · simp
    rw [List.cons_append, walk_link hn hshort hnode, hfollowed, if_neg (by simp), if_neg htarget]
    rw [List.append_assoc] at ih
    exact ih

theorem walk_eq_found (h : Way t links loc ns left r seen) : FileTree.walk t true links loc ns = .found r := by
  have hwalk : FileTree.walk t true links loc (ns ++ []) = FileTree.walk t true left r [] := h.walk (Or.inr rfl)
  rwa [List.append_nil, walk_nil] at hwalk

theorem append {left' : Nat} {r' : Location} {ms : List String} {seen' : List Location}
    (h : Way t links loc ns left r seen) (h' : Way t left r ms left' r' seen') :
    Way t links loc (ns ++ ms) left' r' (seen ++ seen') := by
  induction h with
  | nil => exact h'
  | idle hn _ ih => exact .idle hn (ih h')
  | up _ ih => exact .up (ih h')
  | down hn hshort hnode _ ih => exact .down hn hshort hnode (ih h')
  | link hn hshort hnode htarget _ ih =>
    refine .link hn hshort hnode htarget ?_
    exact List.append_assoc .. ▸ ih h'

/-- All that is seen is a directory or a link. -/
theorem directory_or_link (h : Way t links loc ns left r seen) :
    ∀ l ∈ seen, t.node? l = some .directory ∨ ∃ target, t.node? l = some (.link target) := by
  induction h with
  | nil => simp
  | idle _ _ ih => exact ih
  | up _ ih => exact ih
  | down _ _ hnode _ ih => simpa [hnode] using ih
  | link _ _ hnode _ _ ih => simpa [hnode] using ih

theorem node?_seen (h : Way t links loc ns left r seen) : ∀ l ∈ seen, t.node? l ≠ none := by
  intro l hl hnone
  have hthere := h.directory_or_link l hl
  simp [hnone] at hthere

theorem congr (h : Way t links loc ns left r seen) (hagree : ∀ l ∈ seen, t'.node? l = t.node? l) :
    Way t' links loc ns left r seen := by
  induction h with
  | nil => exact .nil
  | idle hn _ ih => exact .idle hn (ih hagree)
  | up _ ih => exact .up (ih hagree)
  | down hn hshort hnode _ ih =>
    refine .down hn hshort ?_ (ih fun l hl => hagree l (List.mem_cons_of_mem _ hl))
    rw [hagree _ (List.mem_cons_self ..), hnode]
  | link hn hshort hnode htarget _ ih =>
    refine .link hn hshort ?_ htarget (ih fun l hl => hagree l (List.mem_cons_of_mem _ hl))
    rw [hagree _ (List.mem_cons_self ..), hnode]

/-- Where something on a way is gone, and all else is there, no name beyond it leads anywhere. -/
theorem walk_cut (h : Way t links loc ns left r seen) (hless : ∀ l ∈ seen, t'.node? l = t.node? l ∨ t'.node? l = none)
    (hcut : ∃ l ∈ seen, t'.node? l = none) (hrest : rest.all (· == "") = false) :
    FileTree.walk t' follow links loc (ns ++ rest) = .missing := by
  have hmore : ∀ ns : List String, (ns ++ rest).all (· == "") = false := fun ns => by
    rw [List.all_append, hrest, Bool.and_false]
  induction h with
  | nil => simp at hcut
  | idle hn _ ih => rw [List.cons_append, walk_idle hn, ih hless hcut]
  | up _ ih => rw [List.cons_append, walk_up, ih hless hcut]
  | @down _ _ loc _ n ns seen hn hshort hnode _ ih =>
    rw [List.forall_mem_cons] at hless
    by_cases hnone : t'.node? (loc ++ [n]) = none
    · rw [List.cons_append, walk_none hn hshort hnone, hmore, if_neg (by simp)]
    · rw [List.cons_append, walk_directory hn hshort ((hless.1.resolve_right hnone).trans hnode)]
      exact ih hless.2 (by simpa [hnone] using hcut)
  | @link _ _ loc _ n target ns seen hn hshort hnode htarget _ ih =>
    rw [List.forall_mem_cons] at hless
    by_cases hnone : t'.node? (loc ++ [n]) = none
    · rw [List.cons_append, walk_none hn hshort hnone, hmore, if_neg (by simp)]
    · have hfollowed : (ns ++ rest).isEmpty = false := by
        have hsome := hmore ns
        cases hlist : ns ++ rest with
        | nil => simp [hlist] at hsome
        | cons _ _ => rfl
      rw [List.cons_append, walk_link hn hshort ((hless.1.resolve_right hnone).trans hnode), hfollowed, Bool.false_and,
        if_neg (by simp), if_neg htarget, ← List.append_assoc]
      exact ih hless.2 (by simpa [hnone] using hcut)

/-- Where a file stands on a way, and all else is as it was, no name beyond it leads anywhere. -/
theorem walk_blocked {b : Location} {c : Content} (h : Way t links loc ns left r seen) (hb : t'.node? b = some (.file c))
    (hagree : ∀ l ∈ seen, l ≠ b → t'.node? l = t.node? l) (hseen : b ∈ seen) (hrest : rest ≠ []) :
    FileTree.walk t' follow links loc (ns ++ rest) = .blocked .notDirectory := by
  have hmore : ∀ ns : List String, (ns ++ rest).isEmpty = false := fun ns => by simp [hrest]
  induction h with
  | nil => simp at hseen
  | idle hn _ ih => rw [List.cons_append, walk_idle hn, ih hagree hseen]
  | up _ ih => rw [List.cons_append, walk_up, ih hagree hseen]
  | @down _ _ loc _ n ns seen hn hshort hnode _ ih =>
    rw [List.forall_mem_cons] at hagree
    by_cases hhere : loc ++ [n] = b
    · rw [List.cons_append, walk_file hn hshort (hhere ▸ hb), hmore, if_neg (by simp)]
    · rw [List.cons_append, walk_directory hn hshort ((hagree.1 hhere).trans hnode)]
      exact ih hagree.2 ((List.mem_cons.mp hseen).resolve_left (Ne.symm hhere))
  | @link _ _ loc _ n target ns seen hn hshort hnode htarget _ ih =>
    rw [List.forall_mem_cons] at hagree
    by_cases hhere : loc ++ [n] = b
    · rw [List.cons_append, walk_file hn hshort (hhere ▸ hb), hmore, if_neg (by simp)]
    · rw [List.cons_append, walk_link hn hshort ((hagree.1 hhere).trans hnode), hmore, Bool.false_and, if_neg (by simp),
        if_neg htarget, ← List.append_assoc]
      exact ih hagree.2 ((List.mem_cons.mp hseen).resolve_left (Ne.symm hhere))

/-- A way is still there when the tree has grown. -/
theorem grown (h : Way t links loc ns left r seen) (hgrown : Grown t t') : Way t' links loc ns left r seen := by
  refine h.congr fun l hl => ?_
  obtain ⟨node, hnode⟩ := Option.ne_none_iff_exists'.mp (h.node?_seen l hl)
  rw [hgrown.node?_eq hnode, hnode]

/-- In a well-formed tree a way leads from a directory to a directory. -/
theorem directory (h : Way t links loc ns left r seen) (ht : t.WellFormed) (hloc : t.node? loc = some .directory) :
    t.node? r = some .directory := by
  induction h with
  | nil => exact hloc
  | idle _ _ ih => exact ih hloc
  | up _ ih => exact ih (ht.node?_dropLast hloc)
  | down _ _ hnode _ ih => exact ih hnode
  | link _ _ _ _ _ ih => exact ih (node?_linkStart hloc _)

end Way

/-- A way along some names goes along the first ones first. -/
theorem Way.split {ms : List String} (h : Way t links loc (ns ++ ms) left r seen) :
    ∃ left' r' seen' seen'', Way t links loc ns left' r' seen' ∧ Way t left' r' ms left r seen'' ∧
      seen = seen' ++ seen'' := by
  generalize hnames : ns ++ ms = names at h
  induction h generalizing ns with
  | nil =>
    obtain ⟨rfl, rfl⟩ := List.append_eq_nil_iff.mp hnames
    exact ⟨_, _, _, _, .nil, .nil, rfl⟩
  | idle hn hrest ih =>
    cases ns with
    | nil => exact ⟨_, _, [], _, .nil, (show ms = _ from hnames) ▸ .idle hn hrest, rfl⟩
    | cons n ns =>
      obtain ⟨rfl, htail⟩ := List.cons.inj hnames
      obtain ⟨_, _, _, _, hfirst, hsecond, hseen⟩ := ih htail
      exact ⟨_, _, _, _, .idle hn hfirst, hsecond, hseen⟩
  | up hrest ih =>
    cases ns with
    | nil => exact ⟨_, _, [], _, .nil, (show ms = _ from hnames) ▸ .up hrest, rfl⟩
    | cons n ns =>
      obtain ⟨rfl, htail⟩ := List.cons.inj hnames
      obtain ⟨_, _, _, _, hfirst, hsecond, hseen⟩ := ih htail
      exact ⟨_, _, _, _, .up hfirst, hsecond, hseen⟩
  | down hn hshort hnode hrest ih =>
    cases ns with
    | nil => exact ⟨_, _, [], _, .nil, (show ms = _ from hnames) ▸ .down hn hshort hnode hrest, rfl⟩
    | cons n ns =>
      obtain ⟨rfl, htail⟩ := List.cons.inj hnames
      obtain ⟨_, _, _, _, hfirst, hsecond, rfl⟩ := ih htail
      exact ⟨_, _, _, _, .down hn hshort hnode hfirst, hsecond, rfl⟩
  | link hn hshort hnode htarget hrest ih =>
    cases ns with
    | nil => exact ⟨_, _, [], _, .nil, (show ms = _ from hnames) ▸ .link hn hshort hnode htarget hrest, rfl⟩
    | cons n ns =>
      obtain ⟨rfl, rfl⟩ := List.cons.inj hnames
      obtain ⟨_, _, _, _, hfirst, hsecond, rfl⟩ := ih (List.append_assoc ..)
      exact ⟨_, _, _, _, .link hn hshort hnode htarget hfirst, hsecond, rfl⟩

/-- Names that say nothing lead nowhere else. -/
theorem Way.eq_of_idle (h : Way t links loc ns left r seen) (hidle : ∀ n ∈ ns, Path.Idle n) :
    links = left ∧ loc = r ∧ seen = [] := by
  induction h with
  | nil => exact ⟨rfl, rfl, rfl⟩
  | idle _ _ ih => exact ih fun n hn => hidle n (List.mem_cons_of_mem _ hn)
  | up => exact absurd (hidle ".." (List.mem_cons_self ..)) (by decide)
  | down hn => exact absurd (hidle _ (List.mem_cons_self ..)) hn.notIdle
  | link hn => exact absurd (hidle _ (List.mem_cons_self ..)) hn.notIdle

theorem Way.of_idles {idle : List String} (h : Way t links loc (ns ++ idle) left r seen)
    (hidle : ∀ i ∈ idle, Path.Idle i) : Way t links loc ns left r seen := by
  obtain ⟨_, _, _, _, hfirst, hlast, rfl⟩ := h.split
  obtain ⟨rfl, rfl, rfl⟩ := hlast.eq_of_idle hidle
  rwa [List.append_nil]

/-- A slash at the end says nothing. -/
theorem Way.of_slash (h : Way t links loc (ns ++ [""]) left r seen) : Way t links loc ns left r seen :=
  h.of_idles (by simp [Path.Idle])

theorem Way.idles {idle : List String} (h : Way t links loc ns left r seen) (hidle : ∀ i ∈ idle, Path.Idle i) :
    Way t links loc (ns ++ idle) left r seen := by
  have hstay : Way t left r idle left r [] := by
    induction idle with
    | nil => exact .nil
    | cons i idle ih => exact .idle (hidle i (List.mem_cons_self ..)) (ih fun j hj => hidle j (List.mem_cons_of_mem _ hj))
  simpa using h.append hstay

/-- What is found, or free, behind some names is behind a way along them. -/
theorem way_of_walk_append (hrest : ∃ m ∈ rest, m ≠ "") :
    (∃ left r seen, Way t links loc ns left r seen) ∨
      walk t follow links loc (ns ++ rest) = .missing ∨ ∃ why, walk t follow links loc (ns ++ rest) = .blocked why := by
  obtain ⟨m, hm, hne⟩ := hrest
  have hempty : ∀ ns : List String, (ns ++ rest).isEmpty = false := fun ns => by simp [List.ne_nil_of_mem hm]
  have hall : ∀ ns : List String, (ns ++ rest).all (· == "") = false := fun ns =>
    List.all_eq_false.mpr ⟨m, List.mem_append_right _ hm, by simpa using hne⟩
  induction links, loc, ns using walk_induction t with
  | nil => exact Or.inl ⟨_, _, _, .nil⟩
  | idle hidle ih =>
    rw [List.cons_append, walk_idle hidle]
    exact Or.imp_left (fun ⟨_, _, _, h⟩ => ⟨_, _, _, .idle hidle h⟩) ih
  | up ih =>
    rw [List.cons_append, walk_up]
    exact Or.imp_left (fun ⟨_, _, _, h⟩ => ⟨_, _, _, .up h⟩) ih
  | tooLong hn hlong => exact Or.inr (Or.inr ⟨_, walk_tooLong hn hlong⟩)
  | absent hn hshort hnode =>
    rw [List.cons_append, walk_none hn hshort hnode, hall]
    exact Or.inr (Or.inl rfl)
  | directory hn hshort hnode ih =>
    rw [List.cons_append, walk_directory hn hshort hnode]
    exact Or.imp_left (fun ⟨_, _, _, h⟩ => ⟨_, _, _, .down hn hshort hnode h⟩) ih
  | file hn hshort hnode =>
    rw [List.cons_append, walk_file hn hshort hnode, hempty]
    exact Or.inr (Or.inr ⟨_, rfl⟩)
  | @link links loc n ns target hn hshort hnode ih =>
    rw [List.cons_append, walk_link hn hshort hnode, hempty, Bool.false_and, if_neg (by simp)]
    by_cases htarget : target = ""
    · rw [if_pos htarget]
      exact Or.inr (Or.inl rfl)
    · rw [if_neg htarget]
      cases links with
      | zero => exact Or.inr (Or.inr ⟨_, rfl⟩)
      | succ links =>
        have ih := ih links rfl
        rw [List.append_assoc] at ih
        exact Or.imp_left (fun ⟨_, _, _, h⟩ => ⟨_, _, _, .link hn hshort hnode htarget h⟩) ih

/-- A directory that is found is at the end of a way. -/
theorem way_of_directory (h : walk t true links loc ns = .found r) (hr : t.node? r = some .directory) :
    ∃ left seen, Way t links loc ns left r seen := by
  induction links, loc, ns using walk_induction t with
  | nil =>
    rw [walk_nil] at h
    cases h
    exact ⟨_, _, .nil⟩
  | idle hidle ih =>
    rw [walk_idle hidle] at h
    obtain ⟨_, _, hway⟩ := ih h
    exact ⟨_, _, .idle hidle hway⟩
  | up ih =>
    rw [walk_up] at h
    obtain ⟨_, _, hway⟩ := ih h
    exact ⟨_, _, .up hway⟩
  | tooLong hn hlong =>
    rw [walk_tooLong hn hlong] at h
    cases h
  | absent hn hshort hnode =>
    rw [walk_none hn hshort hnode] at h
    split at h <;> cases h
  | directory hn hshort hnode ih =>
    rw [walk_directory hn hshort hnode] at h
    obtain ⟨_, _, hway⟩ := ih h
    exact ⟨_, _, .down hn hshort hnode hway⟩
  | file hn hshort hnode =>
    rw [walk_file hn hshort hnode] at h
    split at h
    · cases h
      rw [hnode] at hr
      cases hr
    · cases h
  | @link links _ _ _ _ hn hshort hnode ih =>
    rw [walk_link hn hshort hnode, Bool.not_true, Bool.and_false, if_neg (by simp)] at h
    split at h
    · cases h
    · rename_i htarget
      cases links with
      | zero => cases h
      | succ links =>
        obtain ⟨_, _, hway⟩ := ih links rfl h
        exact ⟨_, _, .link hn hshort hnode htarget hway⟩

/-- A place that is free has a way to the directory it is in. -/
theorem way_of_vacant {l : Location} {slash : Bool} (hn : n ≠ "")
    (h : walk t false links loc (ns ++ [n]) = .vacant l slash) :
    ∃ left m seen, Way t links loc ns left m seen ∧ l = m ++ [n] ∧ Named n ∧ n.utf8ByteSize ≤ maxName ∧
      t.node? l = none := by
  have hlast : ∃ m ∈ [n], m ≠ "" := ⟨n, List.mem_singleton.mpr rfl, hn⟩
  rcases @way_of_walk_append t false links loc ns [n] hlast with ⟨left, m, seen, hway⟩ | hstop | ⟨_, hstop⟩
  · rw [hway.walk (Or.inl (by simp))] at h
    refine ⟨left, m, seen, hway, ?_⟩
    rcases name_cases n with hidle | rfl | hnamed
    · rw [walk_idle hidle, walk_nil] at h
      cases h
    · rw [walk_up, walk_nil] at h
      cases h
    · by_cases hlong : maxName < n.utf8ByteSize
      · rw [walk_tooLong hnamed hlong] at h
        cases h
      · have hshort := Nat.not_lt.mp hlong
        cases hnode : t.node? (m ++ [n]) with
        | none =>
          rw [walk_none hnamed hshort hnode] at h
          cases h
          exact ⟨rfl, hnamed, hshort, hnode⟩
        | some node =>
          cases node with
          | directory =>
            rw [walk_directory hnamed hshort hnode, walk_nil] at h
            cases h
          | file c =>
            rw [walk_file hnamed hshort hnode] at h
            cases h
          | link target =>
            rw [walk_link hnamed hshort hnode] at h
            cases h
  · rw [hstop] at h
    cases h
  · rw [hstop] at h
    cases h

/-! ## Everything looked at -/

/-- The places that are looked at when names are followed; `jump` goes on behind a link. -/
def lookupsWith (t : FileTree) (follow : Bool) (jump : Location → List String → List Location) (loc : Location) :
    List String → List Location
  | [] => []
  | n :: rest =>
    if Path.Idle n then lookupsWith t follow jump loc rest
    else if n = ".." then lookupsWith t follow jump loc.dropLast rest
    else if maxName < n.utf8ByteSize then []
    else (loc ++ [n]) ::
      match t.node? (loc ++ [n]) with
      | none => []
      | some .directory => lookupsWith t follow jump (loc ++ [n]) rest
      | some (.file _) => []
      | some (.link target) =>
        if rest.isEmpty && ! follow then []
        else if target = "" then []
        else jump (linkStart target loc) (namesOf target ++ rest)

def lookups (t : FileTree) (follow : Bool) : (links : Nat) → Location → List String → List Location
  | 0 => lookupsWith t follow fun _ _ => []
  | links + 1 => lookupsWith t follow (lookups t follow links)

theorem lookups_nil : lookups t follow links loc [] = [] := by
  cases links <;> rfl

theorem lookups_idle (hn : Path.Idle n) : lookups t follow links loc (n :: rest) = lookups t follow links loc rest := by
  cases links <;> exact if_pos hn

theorem lookups_up : lookups t follow links loc (".." :: rest) = lookups t follow links loc.dropLast rest := by
  cases links <;> rfl

theorem lookups_tooLong (hn : Named n) (hlong : maxName < n.utf8ByteSize) :
    lookups t follow links loc (n :: rest) = [] := by
  cases links <;> rw [lookups, lookupsWith, if_neg hn.notIdle, if_neg hn.ne_dots, if_pos hlong]

/-- What is looked at from a name on. -/
theorem lookups_named (hn : Named n) (hshort : n.utf8ByteSize ≤ maxName) :
    lookups t follow links loc (n :: rest) = (loc ++ [n]) ::
      match t.node? (loc ++ [n]) with
      | none => []
      | some .directory => lookups t follow links (loc ++ [n]) rest
      | some (.file _) => []
      | some (.link target) =>
        if rest.isEmpty && ! follow then []
        else if target = "" then []
        else match links with
          | 0 => []
          | links + 1 => lookups t follow links (linkStart target loc) (namesOf target ++ rest) := by
  cases links <;> rw [lookups, lookupsWith, if_neg hn.notIdle, if_neg hn.ne_dots, if_neg (Nat.not_lt.mpr hshort)]

/-- What is seen on a way is looked at first. -/
theorem Way.lookups (h : Way t links loc ns left r seen) (hrest : rest ≠ [] ∨ follow = true) :
    FileTree.lookups t follow links loc (ns ++ rest) = seen ++ FileTree.lookups t follow left r rest := by
  induction h with
  | nil => rfl
  | idle hn _ ih => rw [List.cons_append, lookups_idle hn, ih]
  | up _ ih => rw [List.cons_append, lookups_up, ih]
  | down hn hshort hnode _ ih =>
    rw [List.cons_append, lookups_named hn hshort]
    simp only [hnode, ih, List.cons_append]
  | @link _ _ _ _ n target ns _ hn hshort hnode htarget _ ih =>
    have hfollowed : ((ns ++ rest).isEmpty && ! follow) = false := by
      rcases hrest with hrest | rfl
      · simp [hrest]
      · simp
    rw [List.append_assoc] at ih
    rw [List.cons_append, lookups_named hn hshort]
    simp only [hnode, hfollowed, Bool.false_eq_true, if_false, htarget, ih, List.cons_append]

/-- What is seen on a way is all that is looked at along its names. -/
theorem Way.lookups_self (h : Way t links loc ns left r seen) : FileTree.lookups t true links loc ns = seen := by
  have hlookups : FileTree.lookups t true links loc (ns ++ []) = seen ++ FileTree.lookups t true left r [] :=
    h.lookups (Or.inr rfl)
  rwa [List.append_nil, lookups_nil, List.append_nil] at hlookups

/-- Trees that agree where one of them is looked at lead to the same place. -/
theorem walk_congr (hagree : ∀ l ∈ lookups t follow links loc ns, t'.node? l = t.node? l) :
    walk t' follow links loc ns = walk t follow links loc ns := by
  induction links, loc, ns using walk_induction t with
  | nil => rw [walk_nil, walk_nil]
  | idle hidle ih =>
    rw [lookups_idle hidle] at hagree
    rw [walk_idle hidle, walk_idle hidle, ih hagree]
  | up ih =>
    rw [lookups_up] at hagree
    rw [walk_up, walk_up, ih hagree]
  | tooLong hn hlong => rw [walk_tooLong hn hlong, walk_tooLong hn hlong]
  | absent hn hshort hnode =>
    rw [lookups_named hn hshort, List.forall_mem_cons, hnode] at hagree
    rw [walk_none hn hshort hnode, walk_none hn hshort hagree.1]
  | directory hn hshort hnode ih =>
    rw [lookups_named hn hshort, List.forall_mem_cons, hnode] at hagree
    rw [walk_directory hn hshort hnode, walk_directory hn hshort hagree.1, ih hagree.2]
  | file hn hshort hnode =>
    rw [lookups_named hn hshort, List.forall_mem_cons, hnode] at hagree
    rw [walk_file hn hshort hnode, walk_file hn hshort hagree.1]
  | @link links _ _ _ _ hn hshort hnode ih =>
    rw [lookups_named hn hshort, List.forall_mem_cons, hnode] at hagree
    obtain ⟨hhere, hrest⟩ := hagree
    rw [walk_link hn hshort hnode, walk_link hn hshort hhere]
    simp only at hrest
    split
    · rfl
    · rename_i hfollowed
      rw [if_neg hfollowed] at hrest
      split
      · rfl
      · rename_i htarget
        rw [if_neg htarget] at hrest
        cases links with
        | zero => rfl
        | succ links => exact ih links rfl hrest

/-- Trees that agree where one of them is looked at are looked at in the same places. -/
theorem lookups_congr (hagree : ∀ l ∈ lookups t follow links loc ns, t'.node? l = t.node? l) :
    lookups t' follow links loc ns = lookups t follow links loc ns := by
  induction links, loc, ns using walk_induction t with
  | nil => rw [lookups_nil, lookups_nil]
  | idle hidle ih =>
    rw [lookups_idle hidle] at hagree
    rw [lookups_idle hidle, lookups_idle hidle, ih hagree]
  | up ih =>
    rw [lookups_up] at hagree
    rw [lookups_up, lookups_up, ih hagree]
  | tooLong hn hlong => rw [lookups_tooLong hn hlong, lookups_tooLong hn hlong]
  | absent hn hshort hnode =>
    rw [lookups_named hn hshort, List.forall_mem_cons, hnode] at hagree
    rw [lookups_named hn hshort, lookups_named hn hshort, hagree.1, hnode]
  | directory hn hshort hnode ih =>
    rw [lookups_named hn hshort, List.forall_mem_cons, hnode] at hagree
    rw [lookups_named hn hshort, lookups_named hn hshort, hagree.1, hnode]
    exact congrArg _ (ih hagree.2)
  | file hn hshort hnode =>
    rw [lookups_named hn hshort, List.forall_mem_cons, hnode] at hagree
    rw [lookups_named hn hshort, lookups_named hn hshort, hagree.1, hnode]
  | @link links _ _ _ _ hn hshort hnode ih =>
    rw [lookups_named hn hshort, List.forall_mem_cons, hnode] at hagree
    obtain ⟨hhere, hrest⟩ := hagree
    rw [lookups_named hn hshort, lookups_named hn hshort, hhere, hnode]
    congr 1
    simp only at hrest ⊢
    split
    · rfl
    · rename_i hfollowed
      rw [if_neg hfollowed] at hrest
      split
      · rfl
      · rename_i htarget
        rw [if_neg htarget] at hrest
        cases links with
        | zero => rfl
        | succ links => exact ih links rfl hrest

/-- What is found stands there. -/
theorem node?_of_found (ht : t.WellFormed) (hloc : t.node? loc = some .directory)
    (h : walk t follow links loc ns = .found r) : t.node? r ≠ none := by
  induction links, loc, ns using walk_induction t with
  | nil =>
    rw [walk_nil] at h
    cases h
    simp [hloc]
  | idle hidle ih =>
    rw [walk_idle hidle] at h
    exact ih hloc h
  | up ih =>
    rw [walk_up] at h
    exact ih (ht.node?_dropLast hloc) h
  | tooLong hn hlong =>
    rw [walk_tooLong hn hlong] at h
    cases h
  | absent hn hshort hnode =>
    rw [walk_none hn hshort hnode] at h
    split at h <;> cases h
  | directory hn hshort hnode ih =>
    rw [walk_directory hn hshort hnode] at h
    exact ih hnode h
  | file hn hshort hnode =>
    rw [walk_file hn hshort hnode] at h
    split at h <;> cases h
    simp [hnode]
  | @link links _ _ _ _ hn hshort hnode ih =>
    rw [walk_link hn hshort hnode] at h
    split at h
    · cases h
      simp [hnode]
    · split at h
      · cases h
      · cases links with
        | zero => cases h
        | succ links => exact ih links rfl (node?_linkStart hloc _) h

/-- Where something is found, something stands at all places looked at. -/
theorem node?_of_mem_lookups (h : walk t follow links loc ns = .found r) :
    ∀ l ∈ lookups t follow links loc ns, t.node? l ≠ none := by
  induction links, loc, ns using walk_induction t with
  | nil => simp [lookups_nil]
  | idle hidle ih =>
    rw [walk_idle hidle] at h
    rw [lookups_idle hidle]
    exact ih h
  | up ih =>
    rw [walk_up] at h
    rw [lookups_up]
    exact ih h
  | tooLong hn hlong =>
    rw [walk_tooLong hn hlong] at h
    cases h
  | absent hn hshort hnode =>
    rw [walk_none hn hshort hnode] at h
    split at h <;> cases h
  | directory hn hshort hnode ih =>
    rw [walk_directory hn hshort hnode] at h
    rw [lookups_named hn hshort, List.forall_mem_cons, hnode]
    exact ⟨by simp, ih h⟩
  | file hn hshort hnode =>
    rw [lookups_named hn hshort, hnode]
    simp [hnode]
  | @link links _ _ _ _ hn hshort hnode ih =>
    rw [walk_link hn hshort hnode] at h
    rw [lookups_named hn hshort, List.forall_mem_cons, hnode]
    refine ⟨by simp, ?_⟩
    simp only
    split at h
    · rename_i hlast
      rw [if_pos hlast]
      simp
    · rename_i hfollowed
      rw [if_neg hfollowed]
      split at h
      · cases h
      · rename_i htarget
        rw [if_neg htarget]
        cases links with
        | zero => cases h
        | succ links => exact ih links rfl h

/-- What is found is looked at, unless it is a directory: else one would find it after it is gone. -/
theorem mem_lookups_or_directory (ht : t.WellFormed) (hloc : t.node? loc = some .directory) (h : walk t follow links loc ns = .found r) :
    r ∈ lookups t follow links loc ns ∨ t.node? r = some .directory := by
  by_contra hnot
  obtain ⟨hunseen, hdir⟩ := not_or.mp hnot
  have hr : r ≠ [] := by
    rintro rfl
    exact hdir rfl
  have hnode := @node?_erase t r hr
  have hgone : (t.erase r).WellFormed := by
    rw [WellFormed.erase_eq_eraseAll (fun x hx => ht.node?_below hdir hx) hr]
    exact ht.eraseAll r
  have hloc' : (t.erase r).node? loc = some .directory := by
    rw [hnode, if_neg (fun he : loc = r => hdir (he ▸ hloc)), hloc]
  refine node?_of_found hgone hloc' ((walk_congr fun l hl => ?_).trans h) ((hnode r).trans (if_pos rfl))
  rw [hnode, if_neg]
  rintro rfl
  exact hunseen hl

/-- A directory, or a place where only a directory can be made. -/
def Landing.IsForDirectory (t : FileTree) : Landing → Prop
  | .found r => t.node? r = some .directory
  | .vacant _ slash => slash = true
  | .missing | .blocked _ => True

/-- Names that end in none that is looked up lead to a directory, if anywhere. -/
theorem walk_unnamed (ht : t.WellFormed) (hloc : t.node? loc = some .directory) (hn : Path.Idle n ∨ n = "..") :
    (walk t follow links loc (ns ++ [n])).IsForDirectory t := by
  have hmore : ∀ ns : List String, (ns ++ [n]).isEmpty = false := by simp
  induction links, loc, ns using walk_induction t with
  | nil =>
    rcases hn with hidle | rfl
    · rw [List.nil_append, walk_idle hidle, walk_nil]
      exact hloc
    · rw [List.nil_append, walk_up, walk_nil]
      exact ht.node?_dropLast hloc
  | idle hidle ih =>
    rw [List.cons_append, walk_idle hidle]
    exact ih hloc
  | up ih =>
    rw [List.cons_append, walk_up]
    exact ih (ht.node?_dropLast hloc)
  | tooLong hm hlong =>
    rw [List.cons_append, walk_tooLong hm hlong]
    trivial
  | absent hm hshort hnode =>
    rw [List.cons_append, walk_none hm hshort hnode, hmore]
    split
    · rfl
    · trivial
  | directory hm hshort hnode ih =>
    rw [List.cons_append, walk_directory hm hshort hnode]
    exact ih hnode
  | file hm hshort hnode =>
    rw [List.cons_append, walk_file hm hshort hnode, hmore]
    trivial
  | @link links _ _ _ _ hm hshort hnode ih =>
    rw [List.cons_append, walk_link hm hshort hnode, hmore, Bool.false_and, if_neg (by simp), ← List.append_assoc]
    split
    · trivial
    · cases links with
      | zero => trivial
      | succ links => exact ih links rfl (node?_linkStart hloc _)

/-! ## Plain names -/

theorem walk_slash {slash : List String} (hslash : slash = [] ∨ slash = [""]) :
    walk t follow links loc slash = .found loc := by
  rcases hslash with rfl | rfl
  · exact walk_nil
  · rw [walk_idle (Or.inl rfl), walk_nil]

/-- Where plain names and perhaps a slash lead, when there is no link on the way. -/
theorem walk_plain {slash : List String} (hslash : slash = [] ∨ slash = [""]) (hloc : t.node? loc = some .directory)
    (hne : ns ≠ []) (hns : ∀ n ∈ ns, Path.IsName n)
    (hlinks : ∀ x, x ≠ [] → x <+: ns → ∀ target, t.node? (loc ++ x) ≠ some (.link target)) :
    (walk t follow links loc (ns ++ slash) = .found (loc ++ ns) ∧ t.node? (loc ++ ns) ≠ none) ∨
    (walk t follow links loc (ns ++ slash) = .vacant (loc ++ ns) (! slash.isEmpty) ∧ t.node? (loc ++ ns) = none ∧
      t.node? (loc ++ ns.dropLast) = some .directory ∧ ∀ n ∈ ns, Fits n) ∨
    walk t follow links loc (ns ++ slash) = .missing ∨ ∃ why, walk t follow links loc (ns ++ slash) = .blocked why := by
  induction ns generalizing loc with
  | nil => exact absurd rfl hne
  | cons n ns ih =>
    have hn := hns n (List.mem_cons_self ..)
    have hnamed := Named.of_isName hn
    rw [List.cons_append]
    by_cases hlong : maxName < n.utf8ByteSize
    · exact Or.inr (Or.inr (Or.inr ⟨_, walk_tooLong hnamed hlong⟩))
    · have hshort := Nat.not_lt.mp hlong
      cases hnode : t.node? (loc ++ [n]) with
      | none =>
        rw [walk_none hnamed hshort hnode]
        cases ns with
        | nil =>
          have hall : ([] ++ slash).all (· == "") = true := by rcases hslash with rfl | rfl <;> rfl
          rw [if_pos hall]
          refine Or.inr (Or.inl ⟨rfl, hnode, by simpa using hloc, ?_⟩)
          simpa using (⟨hn, hshort⟩ : Fits n)
        | cons m ms =>
          have hm := hns m (by simp)
          rw [if_neg (by simp [hm.ne_empty])]
          exact Or.inr (Or.inr (Or.inl rfl))
      | some node =>
        cases node with
        | link target => exact absurd hnode (hlinks [n] (by simp) (by simp) target)
        | file c =>
          rw [walk_file hnamed hshort hnode]
          split
          · rename_i hempty
            obtain ⟨rfl, -⟩ : ns = [] ∧ slash = [] := by simpa using hempty
            exact Or.inl ⟨rfl, by rw [hnode]; simp⟩
          · exact Or.inr (Or.inr (Or.inr ⟨_, rfl⟩))
        | directory =>
          rw [walk_directory hnamed hshort hnode]
          by_cases hempty : ns = []
          · subst hempty
            rw [List.nil_append, walk_slash hslash]
            exact Or.inl ⟨rfl, by rw [hnode]; simp⟩
          · have hassoc : ∀ x, loc ++ [n] ++ x = loc ++ n :: x := fun x => List.append_assoc ..
            have ih := ih hnode hempty (fun m hm => hns m (List.mem_cons_of_mem _ hm)) fun x hx hpre => by
              rw [hassoc]
              exact hlinks (n :: x) (by simp) (List.cons_prefix_cons.mpr ⟨rfl, hpre⟩)
            rw [hassoc, hassoc] at ih
            rw [List.dropLast_cons_of_ne_nil hempty]
            refine ih.imp_right (Or.imp_left ?_)
            rintro ⟨hwalk, hfree, hparent, hfits⟩
            exact ⟨hwalk, hfree, hparent, List.forall_mem_cons.mpr ⟨⟨hn, hshort⟩, hfits⟩⟩

/-- Plain names are looked up one below the other, when there is no link on the way. -/
theorem lookups_plain {slash : List String} (hslash : slash = [] ∨ slash = [""]) (hns : ∀ n ∈ ns, Path.IsName n)
    (hlinks : ∀ x, x ≠ [] → x <+: ns → ∀ target, t.node? (loc ++ x) ≠ some (.link target)) :
    ∀ l ∈ lookups t follow links loc (ns ++ slash), ∃ x, x ≠ [] ∧ x <+: ns ∧ l = loc ++ x := by
  induction ns generalizing loc with
  | nil =>
    have hnone : lookups t follow links loc ([] ++ slash) = [] := by
      rcases hslash with rfl | rfl
      · exact lookups_nil
      · exact (lookups_idle (Or.inl rfl)).trans lookups_nil
    intro l hl
    rw [hnone] at hl
    cases hl
  | cons n ns ih =>
    have hn := hns n (List.mem_cons_self ..)
    have hnamed := Named.of_isName hn
    intro l hl
    by_cases hlong : maxName < n.utf8ByteSize
    · rw [List.cons_append, lookups_tooLong hnamed hlong] at hl
      cases hl
    · rw [List.cons_append, lookups_named hnamed (Nat.not_lt.mp hlong)] at hl
      rcases List.mem_cons.mp hl with rfl | hl
      · exact ⟨[n], by simp, by simp, rfl⟩
      · cases hnode : t.node? (loc ++ [n]) with
        | none =>
          rw [hnode] at hl
          cases hl
        | some node =>
          rw [hnode] at hl
          cases node with
          | file c => cases hl
          | link target => exact absurd hnode (hlinks [n] (by simp) (by simp) target)
          | directory =>
            have hassoc : ∀ x, loc ++ [n] ++ x = loc ++ n :: x := fun x => List.append_assoc ..
            obtain ⟨x, -, hpre, rfl⟩ := ih (fun m hm => hns m (List.mem_cons_of_mem _ hm)) (fun x hx hpre => by
              rw [hassoc]
              exact hlinks (n :: x) (by simp) (List.cons_prefix_cons.mpr ⟨rfl, hpre⟩)) l hl
            exact ⟨n :: x, by simp, List.cons_prefix_cons.mpr ⟨rfl, hpre⟩, hassoc x⟩

end Handout.FileTree
