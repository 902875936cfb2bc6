/-
  Handout.Proofs.Store.Refinement — a store that is a directory answers as a table does.

  Operations are done in turn on both (`answers`). One step keeps what the directory and the
  table have in common (`Opened`): below the directory there stands, for each entry of the
  table, the file of its stem with its text, and nothing else. So every answer is the same,
  points compared as numbers, in the same order (`directory_answers_as_table`). The order is
  that of the names of files in one case and that of the stems in the other; they agree because
  a dot comes before all characters of a stem (`nameOf_lt`).
-/

import Mathlib
import Handout.Proofs.Store.Disk
import Handout.Proofs.Store.Memory
import Handout.Proofs.Store.Order
import Handout.Proofs.TestFile.RoundTrip

open Handout.Action

namespace Handout

/-! ## The order of names -/

namespace TestFile

variable {s t : String} {f : TestFile}

/-- All characters come after the dot, and there are some. -/
structure IsWord (s : String) : Prop where
  ne_empty : s ≠ ""
  afterDot : ∀ c ∈ s.toList, '.' < c

theorem lt_of_isNameChar {c : Char} (h : Question.isNameChar c = true) : '.' < c := by
  simp only [Question.isNameChar, Char.isAlphanum, Char.isAlpha, Char.isUpper, Char.isLower, Char.isDigit, Bool.or_eq_true,
    Bool.and_eq_true, decide_eq_true_eq, beq_iff_eq] at h
  show ('.' : Char).val < c.val
  rcases h with ((⟨hlow, -⟩ | ⟨hlow, -⟩) | ⟨hlow, -⟩) | rfl
  · exact UInt32.lt_of_lt_of_le (show '.'.val < 'A'.val by decide) hlow
  · exact UInt32.lt_of_lt_of_le (show '.'.val < 'a'.val by decide) hlow
  · exact UInt32.lt_of_lt_of_le (show '.'.val < '0'.val by decide) hlow
  · decide

/-- A stem begins with a letter, and goes on with letters, digits and underscores. -/
theorem toList_stem (h : Question.isName f.name = true) : ∃ c r, f.stem.toList = c :: r ∧ Question.isNameLetter c = true ∧
    ∀ d ∈ c :: r, Question.isNameChar d = true := by
  rw [Question.isName] at h
  cases hname : f.name.toList with
  | nil => simp [hname] at h
  | cons c r =>
    simp only [hname, Bool.and_eq_true, List.all_eq_true] at h
    have hc : Question.isNameChar c = true := by
      have hletter : c.isAlpha = true := h.1
      simp [Question.isNameChar, Char.isAlphanum, hletter]
    have hH : "H".toList = ['H'] := by decide
    rw [stem, stemOf]
    split
    · refine ⟨c, r ++ ['H'], by rw [String.toList_append, hname, hH, List.cons_append], h.1, fun d hd => ?_⟩
      simp only [List.mem_cons, List.mem_append, List.not_mem_nil, or_false] at hd
      rcases hd with rfl | hd | rfl
      · exact hc
      · exact h.2 d hd
      · decide
    · exact ⟨c, r, hname, h.1, List.forall_mem_cons.mpr ⟨hc, h.2⟩⟩

theorem isWord_stem (h : Question.isName f.name = true) : IsWord f.stem := by
  obtain ⟨c, r, hlist, -, hall⟩ := toList_stem h
  refine ⟨fun he => ?_, fun d hd => lt_of_isNameChar (hall d (hlist ▸ hd))⟩
  rw [he] at hlist
  cases hlist

theorem isTestName_fileName (h : Question.isName f.name = true) : Store.Disk.isTestName (nameOf f.stem) = true := by
  refine (Store.Disk.isTestName_nameOf (isWord_stem h).ne_empty).mpr fun he => ?_
  obtain ⟨c, r, hlist, hletter, -⟩ := toList_stem h
  have hinit : "__init__".toList.head? = some '_' := by decide
  rw [← he, hlist, List.head?_cons, Option.some.injEq] at hinit
  rw [hinit] at hletter
  exact absurd hletter (by decide)

/-- A word overtakes nothing. -/
theorem IsWord.not_overtakes (ht : IsWord t) : ¬ Overtakes t s := by
  rintro ⟨r, hne, hbefore, rfl⟩
  obtain ⟨c, cs, hcons⟩ := List.exists_cons_of_ne_nil (mt String.toList_eq_nil_iff.mp hne)
  have hafter : '.' < c := ht.afterDot c (by simp [hcons])
  rw [String.lt_iff, toList_dot_extension, hcons, List.cons_lt_cons_iff] at hbefore
  rcases hbefore with hlt | ⟨rfl, -⟩
  · exact Char.lt_asymm hafter hlt
  · exact Char.lt_irrefl _ hafter

theorem nameOf_lt (ht : IsWord t) (h : s < t) : nameOf s < nameOf t :=
  (nameOf_lt_or_overtakes h).resolve_right ht.not_overtakes

end TestFile

/-! ## Operations -/

namespace Store

/-- What is asked of a store. -/
inductive Op where
  | save (f : TestFile)
  | delete (stem : String)
  | list
  | removeHidden
  deriving Repr, Inhabited

inductive Answer where
  | done
  | files (es : List (String × TestFile))
  | stems (ss : List String)
  deriving Repr, Inhabited

/-- The same answer, points compared as numbers. -/
def Answer.Same : Answer → Answer → Prop
  | .done, .done => True
  | .files es, .files es' => List.Forall₂ (Table.Related TestFile.Same) es es'
  | .stems ss, .stems ss' => ss = ss'
  | _, _ => False

section

variable {σ : Type} (store : Store (Action σ))

def answer : Op → Action σ Answer
  | .save f => do
    store.save f
    return .done
  | .delete stem => do
    store.delete stem
    return .done
  | .list => return .files (← store.list)
  | .removeHidden => return .stems (← store.removeHidden)

/-- Operations done in turn: what each answers, and the state after it. -/
def answers : List Op → σ → List (Except Failure Answer × σ)
  | [], _ => []
  | op :: ops, s => (store.answer op).outcome s :: answers ops ((store.answer op).outcome s).2

end

namespace Disk

open FileTree (maxPath maxName)
open TestFile (nameOf)

/-- There is room for a test file: no name is too long and no path, neither its own nor that of the file beside it. -/
structure HasRoom (root : Path) (f : TestFile) : Prop where
  name : (Files.temporaryName f.fileName (tagOf 0)).utf8ByteSize ≤ maxName
  path : (Path.join root f.fileName).utf8ByteSize ≤ maxPath
  beside : (Files.temporary (Path.join root f.fileName) (tagOf 0)).utf8ByteSize ≤ maxPath

/-- A test file that can be stored. -/
structure Storable (root : Path) (f : TestFile) : Prop extends HasRoom root f where
  isName : Question.isName f.name = true
  finite : f.points.isFinite = true

/-- What may be asked when the table holds `m`. -/
def Allowed (root : Path) (m : Memory.Files) : Op → Prop
  | .save f => Storable root f
  | .delete stem => stem ∈ Table.keys m
  | .list | .removeHidden => True

/-- What may be asked in turn. -/
def AllAllowed (root : Path) : List Op → Memory.Files → Prop
  | [], _ => True
  | op :: ops, m => Allowed root m op ∧ AllAllowed root ops ((memory.answer op).outcome m).2

/-- With the directory of the store, made where nothing is. -/
def rooted (w : Workspace) (root : Path) : Workspace :=
  if w.isPresent root then w else (w.makeDirectories (maxPath + 1) root).1

/-- The directory of the store is there, or can be made, and is empty. -/
structure Begins (w : Workspace) (root : Path) (t : Location) : Prop where
  made : w.isPresent root = false → (w.makeDirectories (maxPath + 1) root).2 = true
  directory : (rooted w root).directory? root = some t
  empty : (rooted w root).tree.children t = []

/-! ## What a directory and a table have in common -/

section

open Workspace FileTree

variable {w₀ w₁ w w' : Workspace} {root : Path} {left : Nat} {t : Location} {seen : List Location} {m m' : Memory.Files}
  {newId : List String → String} {f : TestFile} {es : List (String × TestFile)}

/-- A directory holds the files of a table and nothing else, and everywhere else it is as in `w₁`. -/
structure Opened (w₁ : Workspace) (root : Path) (left : Nat) (t : Location) (seen : List Location) (m : Memory.Files)
    (w : Workspace) : Prop where
  wellFormed : w.tree.WellFormed
  cwd : w.cwd = w₁.cwd
  leads : w.LeadsTo root left t seen
  directory : w.tree.node? t = some .directory
  ne_empty : root ≠ ""
  size : root.utf8ByteSize ≤ maxPath
  sorted : Table.Sorted m
  stored : ∀ e ∈ m, e.1 = e.2.stem ∧ Storable root e.2
  entry : ∀ s, w.tree.node? (t ++ [nameOf s]) = (Table.find? s m).map fun f => .file (.text f.encode)
  only : ∀ x, x ≠ [] → w.tree.node? (t ++ x) ≠ none → ∃ s, x = [nameOf s]
  outside : ∀ l, (∀ x, x ≠ [] → l ≠ t ++ x) → w.tree.node? l = w₁.tree.node? l

namespace Opened

variable (o : Opened w₁ root left t seen m w)
include o

theorem find?_eq {e : String × TestFile} (he : e ∈ m) : Table.find? e.1 m = some e.2 :=
  (Table.find?_eq_some_iff o.sorted).mpr he

/-- What stands in the directory is the file of an entry. -/
theorem exists_entry {x : Location} (hx : x ≠ []) (hthere : w.tree.node? (t ++ x) ≠ none) :
    ∃ e ∈ m, x = [nameOf e.1] ∧ w.tree.node? (t ++ x) = some (.file (.text e.2.encode)) := by
  obtain ⟨s, rfl⟩ := o.only x hx hthere
  rw [o.entry] at hthere ⊢
  cases hfound : Table.find? s m with
  | none => simp [hfound] at hthere
  | some f => exact ⟨(s, f), (Table.find?_eq_some_iff o.sorted).mp hfound, rfl, rfl⟩

theorem plain : Plain w root left t seen := by
  refine ⟨o.wellFormed, o.leads, o.directory, o.ne_empty, o.size, fun n target hlink => ?_, fun n hthere => ?_⟩
  · obtain ⟨e, -, -, hfile⟩ := o.exists_entry (x := [n]) (by simp) (by rw [hlink]; simp)
    simp [hlink] at hfile
  · obtain ⟨e, he, hn, -⟩ := o.exists_entry (by simp) hthere
    obtain ⟨hstem, hstorable⟩ := o.stored e he
    rw [List.singleton_inj.mp hn, hstem, ← TestFile.fileName_eq]
    exact hstorable.path

theorem isTestFile_iff {n : String} : IsTestFile w t n ↔ ∃ e ∈ m, n = nameOf e.1 := by
  constructor
  · rintro ⟨-, c, hfile⟩
    obtain ⟨e, he, hn, -⟩ := o.exists_entry (x := [n]) (by simp) (by rw [hfile]; simp)
    exact ⟨e, he, List.singleton_inj.mp hn⟩
  · rintro ⟨e, he, rfl⟩
    obtain ⟨hstem, hstorable⟩ := o.stored e he
    refine ⟨hstem ▸ TestFile.isTestName_fileName hstorable.isName, .text e.2.encode, ?_⟩
    rw [o.entry, o.find?_eq he, Option.map_some]

/-- All files that are there can be read. -/
theorem not_isUnreadable (n : String) : ¬ IsUnreadable w t n := by
  rintro ⟨htest, hunreadable⟩
  obtain ⟨e, he, rfl⟩ := o.isTestFile_iff.mp htest
  obtain ⟨g, hdecoded, -⟩ := TestFile.decode_encode (o.stored e he).2.finite
  refine hunreadable e.2.encode g ?_ hdecoded
  rw [o.entry, o.find?_eq he, Option.map_some]

/-- A change to the files in the directory that makes the same change to the table. -/
theorem step (hw : w'.tree.WellFormed) (hcwd : w'.cwd = w.cwd) (hsorted : Table.Sorted m')
    (hstored : ∀ e ∈ m', e.1 = e.2.stem ∧ Storable root e.2)
    (hentry : ∀ s, w'.tree.node? (t ++ [nameOf s]) = (Table.find? s m').map fun f => .file (.text f.encode))
    (hrest : ∀ l, (∀ s, l ≠ t ++ [nameOf s]) → w'.tree.node? l = w.tree.node? l) : Opened w₁ root left t seen m' w' := by
  have hleads : w'.LeadsTo root left t seen := by
    rw [LeadsTo, start_congr hcwd]
    refine Way.congr o.leads fun l hl => hrest l fun s hs => ?_
    have hthere := Way.directory_or_link o.leads l hl
    rw [hs, o.entry] at hthere
    cases hfound : Table.find? s m <;> simp [hfound] at hthere
  refine ⟨hw, hcwd.trans o.cwd, hleads, ?_, o.ne_empty, o.size, hsorted, hstored, hentry, fun x hx hthere => ?_,
    fun l hl => ?_⟩
  · rw [hrest t (by simp), o.directory]
  · by_contra hnot
    have hother : ∀ s, t ++ x ≠ t ++ [nameOf s] := fun s he => hnot ⟨s, List.append_cancel_left he⟩
    rw [hrest _ hother] at hthere
    exact hnot (o.only x hx hthere)
  · rw [hrest l fun s => hl _ (by simp), o.outside l hl]

/-! ### The operations -/

theorem free_temporary {tag : String} : w.tree.node? (t ++ [Files.temporaryName f.fileName tag]) = none := by
  by_contra hthere
  obtain ⟨s, hs⟩ := o.only _ (by simp) hthere
  have hlast := congrArg (fun n : String => n.toList.getLast?) (List.singleton_inj.mp hs)
  have htmp : ".tmp".toList = ['.', 't', 'm', 'p'] := by decide
  simp only [Files.temporaryName, String.toList_append, TestFile.toList_nameOf, htmp, List.getLast?_append] at hlast
  simp at hlast

theorem save_ends (hf : Storable root f) : ((Workspace.files newId).writeAtomic (Path.join root f.fileName) f.encode).Ends w
    (fun _ w' => Opened w₁ root left t seen (Table.insert f.stem f m) w') fun _ _ => False := by
  have hn : Path.IsName f.fileName :=
    TestFile.fileName_eq f ▸ TestFile.isName_nameOf (TestFile.noSlash_stem_of_isName hf.isName)
  refine (Files.ends_writeAtomic o.wellFormed o.directory o.leads hn f.encode).mono (fun _ w' hw' => ?_) fun _ _ he => ?_
  · obtain ⟨-, -, hset⟩ := hw'
    rw [TestFile.fileName_eq] at hset
    refine o.step hset.wellFormed hset.cwd (Table.sorted_insert _ _ o.sorted) (fun e he => ?_) (fun s => ?_) fun l hl =>
      hset.node?_of_ne (hl _)
    · rcases Table.mem_of_mem_insert he with rfl | he
      · exact ⟨rfl, hf⟩
      · exact o.stored e he
    · by_cases hs : s = f.stem
      · rw [hs, hset.node?_self, Table.find?_insert_self, Option.map_some]
      · rw [hset.node?_of_ne fun he => hs (TestFile.nameOf_inj (List.singleton_inj.mp (List.append_cancel_left he))),
          Table.find?_insert_ne hs, o.entry]
  · obtain ⟨-, -, hnot⟩ := he
    refine hnot rfl (roomy_of_free o.directory o.leads hn ?_ o.free_temporary hf.path hf.beside hf.name)
    rw [TestFile.fileName_eq, o.entry]
    cases Table.find? f.stem m <;> simp

theorem delete_ends {s : String} (hs : s ∈ Table.keys m) (E : Failure → Workspace → Prop) :
    ((disk (files newId) root).delete s).Ends w (fun _ w' => Opened w₁ root left t seen (Table.erase s m) w') E := by
  obtain ⟨e, he, rfl⟩ := List.mem_map.mp hs
  obtain ⟨hstem, hstorable⟩ := o.stored e he
  have hnoSlash : '/' ∉ e.1.toList := hstem ▸ TestFile.noSlash_stem_of_isName hstorable.isName
  refine (Disk.delete_ends o.plain hnoSlash (by rw [o.entry, o.find?_eq he]; simp) E).mono (fun _ w' hset => ?_)
    fun _ _ he => he
  refine o.step hset.wellFormed hset.cwd (o.sorted.filter _) (fun e' he' => o.stored e' (List.mem_filter.mp he').1)
    (fun s => ?_) fun l hl => hset.node?_of_ne (hl _)
  by_cases hse : s = e.1
  · rw [hse, hset.node?_self, Table.find?_erase_self o.sorted, Option.map_none]
  · rw [Table.find?_erase_ne o.sorted hse, hset.node?_of_ne fun he => hse (TestFile.nameOf_inj (List.singleton_inj.mp (List.append_cancel_left he))), o.entry]

/-- What is listed is the table, in its order. -/
theorem related (hlisted : Listed w t es) : List.Forall₂ (Table.Related TestFile.Same) m es := by
  have hsorted : (m.map fun e => nameOf e.1).Pairwise (· < ·) := by
    refine List.pairwise_map.mpr (o.sorted.imp_of_mem fun {a b} _ hb hab => ?_)
    obtain ⟨hstem, hstorable⟩ := o.stored b hb
    exact TestFile.nameOf_lt (hstem ▸ TestFile.isWord_stem hstorable.isName) hab
  have hmem : ∀ n, n ∈ m.map (fun e => nameOf e.1) ↔ n ∈ es.map (fun e => nameOf e.1) := by
    intro n
    rw [List.mem_map, List.mem_map]
    constructor
    · rintro ⟨e, he, rfl⟩
      obtain ⟨e', he', hn⟩ := hlisted.all _ (o.isTestFile_iff.mpr ⟨e, he, rfl⟩)
      exact ⟨e', he', hn.symm⟩
    · rintro ⟨e', he', rfl⟩
      obtain ⟨e, he, hn⟩ := o.isTestFile_iff.mp (hlisted.entry e' he').1
      exact ⟨e, he, hn.symm⟩
  have hnames : m.map (fun e => nameOf e.1) = es.map fun e => nameOf e.1 :=
    ((List.perm_ext_iff_of_nodup (hsorted.imp fun h => String.ne_of_lt h) (hlisted.sorted.imp fun h => String.ne_of_lt h)).mpr
      hmem).eq_of_pairwise (fun a b _ _ hab hba => absurd hba (String.lt_asymm hab)) hsorted hlisted.sorted
  have hpaired : List.Forall₂ (fun e e' => nameOf e.1 = nameOf e'.1) m es :=
    List.forall₂_map_right_iff.mp (List.forall₂_map_left_iff.mp (List.forall₂_eq_eq_eq ▸ hnames))
  refine List.forall₂_iff_zip.mpr ⟨hpaired.length_eq, fun {e e'} hzip => ?_⟩
  obtain ⟨he, he'⟩ := List.of_mem_zip hzip
  have hn : nameOf e.1 = nameOf e'.1 := List.forall₂_zip hpaired hzip
  obtain ⟨-, text, hfile, hdecoded⟩ := hlisted.entry e' he'
  obtain ⟨g, hread, hsame⟩ := TestFile.decode_encode (o.stored e he).2.finite
  rw [← hn, o.entry, o.find?_eq he, Option.map_some, Option.some.injEq, Node.file.injEq, Content.text.injEq] at hfile
  rw [← hfile, hread, Except.ok.injEq] at hdecoded
  exact ⟨TestFile.nameOf_inj hn, hdecoded ▸ hsame⟩

theorem list_ends : ((disk (files newId) root).list).Ends w
    (fun es w' => w' = w ∧ List.Forall₂ (Table.Related TestFile.Same) m es) fun _ _ => False :=
  (Disk.list_ends o.plain).mono (fun _ _ h => ⟨h.1, o.related h.2⟩) fun _ _ h => h.2.elim o.not_isUnreadable

theorem removeHidden_ends : ((disk (files newId) root).removeHidden).Ends w
    (fun stems w' => stems = Table.keys (m.filter Memory.isHiddenEntry) ∧
      Opened w₁ root left t seen (m.filter fun e => ! Memory.isHiddenEntry e) w') fun _ _ => False := by
  refine (Disk.removeHidden_ends o.plain).mono (fun stems w' h => ?_) fun _ _ h => h.2.elim o.not_isUnreadable
  obtain ⟨es, hlisted, hstems, hrid⟩ := h
  have hkeys : Table.keys (m.filter Memory.isHiddenEntry) = stems := hstems ▸
    Table.keys_filter_of_related (o.related hlisted) fun _ _ hsame => hsame.2.2.1
  refine ⟨hkeys.symm, o.step hrid.wellFormed hrid.cwd (o.sorted.filter _)
    (fun e he => o.stored e (List.mem_filter.mp he).1) (fun s => ?_) fun l hl => ?_⟩
  · rw [hrid.node?, ← hkeys, ← Table.filter_key_notMem o.sorted, Table.find?_filter _ o.sorted]
    by_cases hs : s ∈ Table.keys (m.filter Memory.isHiddenEntry)
    · rw [if_pos ⟨s, hs, rfl⟩]
      simp [hs]
    · have hother : ¬ ∃ s' ∈ Table.keys (m.filter Memory.isHiddenEntry), t ++ [nameOf s] = t ++ [nameOf s'] := by
        rintro ⟨s', hs', he⟩
        exact hs (TestFile.nameOf_inj (List.singleton_inj.mp (List.append_cancel_left he)) ▸ hs')
      rw [if_neg hother, o.entry]
      cases Table.find? s m <;> simp [hs, Option.filter_some]
  · rw [hrid.node?, if_neg]
    rintro ⟨s, -, hs⟩
    exact hl s hs

end Opened

/-! ## From the beginning -/

/-- The directory is not there yet and the table is empty, or they hold the same. -/
inductive Mirrored (w₀ : Workspace) (root : Path) (t : Location) (m : Memory.Files) (w : Workspace) : Prop where
  | absent (same : w = w₀) (empty : m = []) (absent : w.isPresent root = false)
  | opened (left : Nat) (seen : List Location) (opened : Opened (rooted w₀ root) root left t seen m w)

theorem memory_answer_save (f : TestFile) (m : Memory.Files) :
    memory.answer (.save f) m = .ok .done (Table.insert f.stem f m) := rfl

theorem memory_answer_delete {s : String} (hs : s ∈ Table.keys m) : memory.answer (.delete s) m = .ok .done (Table.erase s m) := by
  simp only [answer, bind, EStateM.bind, Memory.delete_memory hs]
  rfl

theorem memory_answer_list (m : Memory.Files) : memory.answer .list m = .ok (.files m) m := rfl

theorem memory_answer_removeHidden (hm : Table.Sorted m) : memory.answer .removeHidden m =
    .ok (.stems (Table.keys (m.filter Memory.isHiddenEntry))) (m.filter fun e => ! Memory.isHiddenEntry e) := by
  simp only [answer, bind, EStateM.bind, Memory.removeHidden_memory hm]
  rfl

/-- An empty directory holds what an empty table holds. -/
theorem Begins.opened (hb : Begins w₀ root t) (hw : (rooted w₀ root).tree.WellFormed) :
    ∃ left seen, Opened (rooted w₀ root) root left t seen [] (rooted w₀ root) := by
  obtain ⟨hfollow, hdir⟩ := directory?_eq_some.mp hb.directory
  obtain ⟨hne, hsize, left, r, seen, hleads, hfound, -⟩ := leadsTo_of_shows ((shows_of_found hfollow).trans hdir)
  obtain rfl : t = r := by simpa using hfollow.symm.trans hfound
  have hnone : ∀ x, x ≠ [] → (rooted w₀ root).tree.node? (t ++ x) = none := by
    intro x hx
    obtain ⟨n, x, rfl⟩ := List.exists_cons_of_ne_nil hx
    have hchild : (rooted w₀ root).tree.node? (t ++ [n]) = none := by
      by_contra hthere
      simpa [hb.empty] using FileTree.mem_children.mpr hthere
    exact hw.node?_of_prefix hchild (by simp)
  exact ⟨left, seen, hw, rfl, hleads, hdir, hne, hsize, Table.sorted_nil, by simp, fun s => hnone _ (by simp),
    fun x hx hthere => absurd (hnone x hx) hthere, fun _ _ => rfl⟩

/-- One operation: the same answer, and what was the same stays so. -/
theorem answer_ends (hb : Begins w₀ root t) (hw : (rooted w₀ root).tree.WellFormed) (h : Mirrored w₀ root t m w) {op : Op}
    (hop : Allowed root m op) : ((disk (files newId) root).answer op).Ends w (fun a w' => ∃ b m', memory.answer op m = .ok b m' ∧ b.Same a ∧
      Mirrored w₀ root t m' w') fun _ _ => False := by
  cases h with
  | absent hsame hempty habsent =>
    subst hsame hempty
    cases op with
    | save f =>
      obtain ⟨left, seen, o⟩ := hb.opened hw
      have hrooted : rooted w root = (w.makeDirectories (maxPath + 1) root).1 := by simp [rooted, habsent]
      refine ends_bind.mpr (ends_bind.mpr (ends_isPresent.mpr ?_))
      rw [habsent, if_neg (by simp)]
      refine ends_bind.mpr (ends_makeDirectories.mpr ⟨fun _ => ?_, fun hrefused => ?_⟩)
      · rw [← hrooted]
        exact (o.save_ends hop).mono (fun _ w' o' => ends_pure.mpr ⟨_, _, memory_answer_save f [], trivial, .opened left seen o'⟩)
          fun _ _ he => he
      · exact absurd (hrefused.symm.trans (hb.made habsent)) (by simp)
    | delete s => simp [Allowed, Table.keys] at hop
    | list =>
      refine ends_bind.mpr ((list_absent habsent _).mono (fun es w' hes => ?_) fun _ _ he => he)
      obtain ⟨rfl, rfl⟩ := hes
      exact ends_pure.mpr ⟨_, _, memory_answer_list [], .nil, .absent rfl rfl habsent⟩
    | removeHidden =>
      refine ends_bind.mpr ((removeHidden_absent habsent _).mono (fun es w' hes => ?_) fun _ _ he => he)
      obtain ⟨rfl, rfl⟩ := hes
      exact ends_pure.mpr ⟨_, _, memory_answer_removeHidden Table.sorted_nil, rfl, .absent rfl rfl habsent⟩
  | opened left seen o =>
    cases op with
    | save f =>
      refine ends_bind.mpr (ends_bind.mpr (ends_isPresent.mpr ?_))
      rw [o.plain.isPresent, if_pos rfl]
      exact (o.save_ends hop).mono (fun _ w' o' => ends_pure.mpr ⟨_, _, memory_answer_save f m, trivial, .opened left seen o'⟩)
        fun _ _ he => he
    | delete s =>
      exact ends_bind.mpr ((o.delete_ends hop _).mono (fun _ w' o' =>
        ends_pure.mpr ⟨_, _, memory_answer_delete hop, trivial, .opened left seen o'⟩) fun _ _ he => he)
    | list =>
      refine ends_bind.mpr (o.list_ends.mono (fun es w' hes => ?_) fun _ _ he => he)
      obtain ⟨rfl, hrelated⟩ := hes
      exact ends_pure.mpr ⟨_, _, memory_answer_list m, hrelated, .opened left seen o⟩
    | removeHidden =>
      refine ends_bind.mpr (o.removeHidden_ends.mono (fun stems w' hes => ?_) fun _ _ he => he)
      obtain ⟨rfl, o'⟩ := hes
      exact ends_pure.mpr ⟨_, _, memory_answer_removeHidden o.sorted, rfl, .opened left seen o'⟩

/-! ## All operations in turn -/

/-- The directory holds one file for each entry of the table, with its text, and nothing else. All else is as it was in
    `w`, but that directories were made on the way to it where nothing was. -/
structure Mirrors (w : Workspace) (root : Path) (t : Location) (m : Memory.Files) (w' : Workspace) : Prop where
  entry : ∀ s, w'.tree.node? (t ++ [nameOf s]) = (Table.find? s m).map fun f => .file (.text f.encode)
  only : ∀ x, x ≠ [] → w'.tree.node? (t ++ x) ≠ none → ∃ s, x = [nameOf s]
  directory : w'.isPresent root = true → w'.directory? root = some t
  absent : w'.isPresent root = false → m = []
  outside : ∀ l, (∀ x, x ≠ [] → l ≠ t ++ x) → w'.tree.node? l = w.tree.node? l ∨
    (w.tree.node? l = none ∧ w'.tree.node? l = some .directory ∧ l ∈ w'.passed root)

theorem made_rooted (hw : w.tree.WellFormed) (hcwd : w.tree.node? w.cwd = some .directory) (root : Path) :
    Made w root (rooted w root) := by
  rw [rooted]
  split
  · exact .refl hw root
  · exact (makeDirectories_spec hw hcwd (maxPath + 1) root).1

theorem Mirrored.mirrors (hw : w₀.tree.WellFormed) (hcwd : w₀.tree.node? w₀.cwd = some .directory) (hb : Begins w₀ root t)
    (h : Mirrored w₀ root t m w) : Mirrors w₀ root t m w := by
  have hmade := made_rooted hw hcwd root
  cases h with
  | absent hsame hempty habsent =>
    subst hsame hempty
    obtain ⟨left, seen, o⟩ := hb.opened hmade.wellFormed
    have hnone : ∀ x, x ≠ [] → w.tree.node? (t ++ x) = none := by
      intro x hx
      have hafter : (rooted w root).tree.node? (t ++ x) = none := by
        by_contra hthere
        obtain ⟨e, he, -⟩ := o.exists_entry hx hthere
        cases he
      exact (hmade.grown (t ++ x)).elim (fun hl => hl ▸ hafter) And.left
    exact ⟨fun s => hnone _ (by simp), fun x hx hthere => absurd (hnone x hx) hthere,
      fun hpresent => absurd (habsent.symm.trans hpresent) (by simp), fun _ => rfl, fun _ _ => Or.inl rfl⟩
  | opened left seen o =>
    refine ⟨o.entry, o.only, fun _ => o.plain.directory?, fun habsent => ?_, fun l hl => ?_⟩
    · exact absurd (habsent.symm.trans o.plain.isPresent) (by simp)
    · rw [o.outside l hl]
      refine (hmade.grown l).imp_right fun hnew => ⟨hnew.1, hnew.2, ?_⟩
      -- the way to the directory is the same as when it was made
      have hpassed : (rooted w₀ root).passed root = w.passed root := by
        refine passed_congr o.cwd.symm fun l' hl' => (o.outside l' ?_).symm
        rintro x hx rfl
        rw [o.leads.passed_eq] at hl'
        have hthere := Way.directory_or_link o.leads _ hl'
        obtain ⟨e, -, -, hfile⟩ := o.exists_entry hx (by rcases hthere with h | ⟨_, h⟩ <;> simp [h])
        simp [hfile] at hthere
      exact hpassed ▸ hmade.mem_passed hnew.1 (by simp [hnew.2])

theorem answers_mirrored (hw : w₀.tree.WellFormed) (hcwd : w₀.tree.node? w₀.cwd = some .directory) (hb : Begins w₀ root t)
    (h : Mirrored w₀ root t m w) {ops : List Op} (hops : AllAllowed root ops m) :
    List.Forall₂ (fun d m => (∃ a b, d.1 = .ok a ∧ m.1 = .ok b ∧ b.Same a) ∧ Mirrors w₀ root t m.2 d.2)
      ((disk (files newId) root).answers ops w) (memory.answers ops m) := by
  induction ops generalizing w m with
  | nil => exact .nil
  | cons op ops ih =>
    obtain ⟨hop, hops⟩ := hops
    have hends : ((disk (files newId) root).answer op).Ends w _ _ := answer_ends hb (made_rooted hw hcwd root).wellFormed h hop
    obtain ⟨a, w', hrun, b, m', hmemory, hsame, hmirrored⟩ := hends.exists_outcome
    rw [outcome_eq_ok.mpr hmemory] at hops
    rw [answers, answers, hrun, outcome_eq_ok.mpr hmemory]
    exact .cons ⟨⟨a, b, rfl, rfl, hsame⟩, hmirrored.mirrors hw hcwd hb⟩ (ih hmirrored hops)

/-- A store that is a directory, empty or not there at first, answers as one that is a table, and holds the files of
    the table after each operation. -/
theorem directory_answers_as_table (hw : w.tree.WellFormed) (hcwd : w.tree.node? w.cwd = some .directory)
    (hb : Begins w root t) {ops : List Op} (hops : AllAllowed root ops Memory.empty) :
    List.Forall₂ (fun d m => (∃ a b, d.1 = .ok a ∧ m.1 = .ok b ∧ b.Same a) ∧ Mirrors w root t m.2 d.2)
      ((disk (files newId) root).answers ops w) (memory.answers ops Memory.empty) := by
  refine answers_mirrored hw hcwd hb ?_ hops
  by_cases hpresent : w.isPresent root = true
  · have hrooted : rooted w root = w := if_pos hpresent
    obtain ⟨left, seen, o⟩ := hb.opened (made_rooted hw hcwd root).wellFormed
    rw [hrooted] at o
    exact .opened left seen (hrooted.symm ▸ o)
  · exact .absent rfl rfl (Bool.eq_false_iff.mpr hpresent)

end

/-! ## A run -/

def nothing : Workspace := ⟨⟨[]⟩, [], []⟩

/-- The tests of a question that is worth nothing. -/
def tests (hidden : Bool) : TestFile := ⟨"q", .zero, hidden, []⟩

/-- In a directory that is made for them two files are saved, looked at and deleted. -/
theorem tests_are_kept : nothing.tree.WellFormed ∧ nothing.tree.node? nothing.cwd = some .directory ∧
    Begins nothing "tests" ["tests"] ∧
    AllAllowed "tests" [.save (tests true), .save (tests false), .removeHidden, .list, .delete "q"] Memory.empty ∧
    List.Forall₂ (fun d m => (∃ a b, d.1 = .ok a ∧ m.1 = .ok b ∧ b.Same a) ∧ Mirrors nothing "tests" ["tests"] m.2 d.2)
      ((disk (Workspace.files fun _ => "") "tests").answers
        [.save (tests true), .save (tests false), .removeHidden, .list, .delete "q"] nothing)
      (memory.answers [.save (tests true), .save (tests false), .removeHidden, .list, .delete "q"] Memory.empty) := by
  have hw : nothing.tree.WellFormed := by decide +kernel
  have hb : Begins nothing "tests" ["tests"] := ⟨fun _ => by decide +kernel, by decide +kernel, by decide +kernel⟩
  have hstorable : ∀ hidden, Storable "tests" (tests hidden) := by
    rintro (_ | _) <;> exact ⟨⟨by decide +kernel, by decide +kernel, by decide +kernel⟩, by decide +kernel, by decide +kernel⟩
  have hops : AllAllowed "tests" [.save (tests true), .save (tests false), .removeHidden, .list, .delete "q"] Memory.empty :=
    ⟨hstorable true, hstorable false, trivial, trivial, show "q" ∈ Table.keys _ by decide +kernel, trivial⟩
  exact ⟨hw, rfl, hb, hops, directory_answers_as_table hw rfl hb hops⟩

/-- The directory above is made with that of the store. -/
theorem save_below_new : ((disk (Workspace.files fun _ => "") "new/tests").answer (.save (tests false))).Ends nothing
    (fun a w' => a = .done ∧ w'.tree.node? ["new"] = some .directory) fun _ _ => False := by
  have hw : nothing.tree.WellFormed := by decide +kernel
  have hb : Begins nothing "new/tests" ["new", "tests"] := ⟨fun _ => by decide +kernel, by decide +kernel, by decide +kernel⟩
  have hallowed : Allowed "new/tests" [] (.save (tests false)) :=
    ⟨⟨by decide +kernel, by decide +kernel, by decide +kernel⟩, by decide +kernel, by decide +kernel⟩
  refine (answer_ends hb (made_rooted hw rfl _).wellFormed (.absent rfl rfl (by decide +kernel)) hallowed).mono (fun a w' h => ?_) fun _ _ he => he
  obtain ⟨b, m', hmemory, hsame, hmirrored⟩ := h
  rw [memory_answer_save] at hmemory
  cases hmemory
  refine ⟨by cases a <;> simp_all [Answer.Same], ?_⟩
  cases hmirrored with
  | absent _ hempty => cases hempty
  | opened left seen o =>
    rw [o.outside _ (by simp)]
    decide +kernel

theorem isPresent_empty (w : Workspace) : w.isPresent "" = false := rfl

/-- What is saved under the empty path goes to the directory one works in. -/
theorem save_nowhere : ((disk (Workspace.files fun _ => "") "").answer (.save (tests false))).Ends nothing
    (fun a _ => a = .done) fun _ _ => False := by
  have hw : nothing.tree.WellFormed := by decide +kernel
  have hleads : nothing.LeadsTo "" FileTree.maxLinks [] [] := .nil
  have hname : Path.IsName (tests false).fileName := by decide +kernel
  refine ends_bind.mpr (ends_bind.mpr (Workspace.ends_isPresent.mpr ?_))
  rw [isPresent_empty, if_neg (by simp)]
  refine ends_bind.mpr (Workspace.ends_makeDirectories.mpr ⟨fun _ => ?_, fun hrefused => by cases hrefused⟩)
  refine (Files.ends_writeAtomic hw rfl hleads hname _).mono (fun _ _ _ => ends_pure.mpr rfl) fun _ _ he => ?_
  exact he.2.2 rfl (Workspace.roomy_of_free rfl hleads hname (by decide +kernel) (by decide +kernel) (by decide +kernel)
    (by decide +kernel) (by decide +kernel))

/-- A directory above that of the store is made as well; and nothing is found in the store of the empty path. -/
theorem directory_above_is_made :
    (∃ w', (disk (Workspace.files fun _ => "") "new/tests").answers [.save (tests false)] nothing = [(.ok .done, w')] ∧
      nothing.tree.node? ["new"] = none ∧ w'.tree.node? ["new"] = some .directory) ∧
    ∃ w', (disk (Workspace.files fun _ => "") "").answers [.save (tests false), .list] nothing =
        [(.ok .done, w'), (.ok (.files []), w')] ∧
      memory.answers [.save (tests false), .list] Memory.empty =
        [(.ok .done, [("q", tests false)]), (.ok (.files [("q", tests false)]), [("q", tests false)])] := by
  obtain ⟨_, w₁, hsaved, rfl, hmade⟩ := save_below_new.exists_outcome
  obtain ⟨_, w₂, hsaved', rfl⟩ := save_nowhere.exists_outcome
  have hlist : ((disk (Workspace.files fun _ => "") "").answer .list).Ends w₂ (fun a w' => w' = w₂ ∧ a = .files []) fun _ _ => False := by
    refine ends_bind.mpr ((list_absent (isPresent_empty w₂) _).mono (fun es w' hes => ?_) fun _ _ he => he)
    obtain ⟨rfl, rfl⟩ := hes
    exact ends_pure.mpr ⟨rfl, rfl⟩
  obtain ⟨_, w₃, hlisted, hsame, rfl⟩ := hlist.exists_outcome
  rw [hsame] at hlisted
  refine ⟨⟨w₁, by rw [answers, answers, hsaved], rfl, hmade⟩, w₂, ?_, rfl⟩
  rw [answers, answers, answers, hsaved', hlisted]

end Disk
end Store
end Handout
