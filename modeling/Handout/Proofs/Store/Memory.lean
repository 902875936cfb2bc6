/-
  Handout.Proofs.Store.Memory — what saving and removing do to a store that is a table.

  Saving a list of files always succeeds and inserts each under its stem
  (`saveAll_memory`), so the table stays sorted. Nothing is lost exactly when no stem is
  saved twice (`total_savedIn_eq_iff`). Removing the hidden tier succeeds on
  every sorted table and leaves exactly the entries that are not hidden
  (`removeHidden_memory`).
-/

import Handout.Proofs.Table
import Handout.Store.Memory

namespace Handout.Store.Memory

/-! ## Saving -/

/-- The table after some files are saved in turn. -/
def savedIn (files : List TestFile) (t : Files) : Files := files.foldl (fun t f => Table.insert f.stem f t) t

@[simp] theorem savedIn_nil (t : Files) : savedIn [] t = t := rfl

@[simp] theorem savedIn_cons (f : TestFile) (files : List TestFile) (t : Files) :
    savedIn (f :: files) t = savedIn files (Table.insert f.stem f t) := rfl

theorem saveAll_memory (files : List TestFile) (t : Files) :
    memory.saveAll files t = .ok () (savedIn files t) := by
  induction files generalizing t with
  | nil => rfl
  | cons f rest ih => exact ih (Table.insert f.stem f t)

theorem sorted_savedIn (files : List TestFile) {t : Files} (h : Table.Sorted t) : Table.Sorted (savedIn files t) := by
  induction files generalizing t with
  | nil => exact h
  | cons f rest ih => exact ih (Table.sorted_insert f.stem f h)

/-- A file whose stem is not saved again is found as it is. -/
theorem find?_savedIn_of_notMem {stem : String} {files : List TestFile} (h : stem ∉ files.map TestFile.stem)
    (t : Files) : Table.find? stem (savedIn files t) = Table.find? stem t := by
  induction files generalizing t with
  | nil => rfl
  | cons f rest ih =>
    rw [List.map_cons, List.mem_cons, not_or] at h
    rw [savedIn_cons, ih h.2, Table.find?_insert_ne h.1]

/-- Under a stem is the last file that was saved there. -/
theorem find?_savedIn (stem : String) (files : List TestFile) (t : Files) :
    Table.find? stem (savedIn files t) = (files.reverse.find? fun f => f.stem = stem).or (Table.find? stem t) := by
  induction files generalizing t with
  | nil => rfl
  | cons f rest ih =>
    rw [savedIn_cons, ih, List.reverse_cons, List.find?_append, Option.or_assoc]
    congr 1
    by_cases h : f.stem = stem
    · rw [h, Table.find?_insert_self, List.find?_cons_of_pos (by simpa using h), Option.some_or]
    · rw [Table.find?_insert_ne (Ne.symm h), List.find?_cons_of_neg (by simpa using h), List.find?_nil,
        Option.none_or]

theorem find?_savedIn_of_mem {files : List TestFile} (h : (files.map TestFile.stem).Nodup) {f : TestFile}
    (hf : f ∈ files) (t : Files) : Table.find? f.stem (savedIn files t) = some f := by
  induction files generalizing t with
  | nil => cases hf
  | cons g rest ih =>
    obtain ⟨hg, hrest⟩ := List.nodup_cons.mp h
    rcases List.mem_cons.mp hf with rfl | hf
    · rw [savedIn_cons, find?_savedIn_of_notMem hg, Table.find?_insert_self]
    · exact ih hrest hf (Table.insert g.stem g t)

theorem total_savedIn_le (w : TestFile → Nat) (files : List TestFile) {t : Files} (h : Table.Sorted t) :
    Table.total w (savedIn files t) ≤ Table.total w t + (files.map w).sum := by
  induction files generalizing t with
  | nil => simp
  | cons f rest ih =>
    have hinsert := Table.total_insert w f.stem f h
    have hrest := ih (Table.sorted_insert f.stem f h)
    rw [savedIn_cons, List.map_cons, List.sum_cons]
    omega

/-- Where every file counts, all of them are there exactly when no stem is taken twice. -/
theorem total_savedIn_eq_iff {w : TestFile → Nat} {files : List TestFile} {t : Files} (h : Table.Sorted t)
    (hfiles : ∀ f ∈ files, 0 < w f) (ht : ∀ e ∈ t, 0 < w e.2) :
    Table.total w (savedIn files t) = Table.total w t + (files.map w).sum ↔
      (files.map TestFile.stem).Nodup ∧ ∀ f ∈ files, f.stem ∉ Table.keys t := by
  induction files generalizing t with
  | nil => simp
  | cons f rest ih =>
    have hinsert := Table.total_insert w f.stem f h
    have hsorted := Table.sorted_insert f.stem f h
    have hle := total_savedIn_le w rest hsorted
    rw [savedIn_cons, List.map_cons, List.map_cons, List.sum_cons, List.nodup_cons, List.forall_mem_cons]
    cases hfound : Table.find? f.stem t with
    | some g =>
      -- the file takes the place of `g`, whose weight is lost
      have hg : 0 < w g := ht _ ((Table.find?_eq_some_iff h).mp hfound)
      have hmem : f.stem ∈ Table.keys t := Table.find?_isSome_iff.mp (by rw [hfound]; rfl)
      rw [hfound, Option.map_some, Option.getD_some] at hinsert
      refine ⟨fun he => absurd he (by omega), fun hr => absurd hmem hr.2.1⟩
    | none =>
      have hnotMem : f.stem ∉ Table.keys t := by
        intro hm
        simpa [hfound] using Table.find?_isSome_iff.mpr hm
      have hpositive : ∀ e ∈ Table.insert f.stem f t, 0 < w e.2 := by
        intro e he
        rcases Table.mem_of_mem_insert he with rfl | he
        · exact hfiles f (List.mem_cons_self ..)
        · exact ht e he
      have ih := ih hsorted (fun g hg => hfiles g (List.mem_cons_of_mem _ hg)) hpositive
      rw [hfound, Option.map_none, Option.getD_none] at hinsert
      rw [← Nat.add_assoc, ← hinsert, Nat.add_zero, ih]
      simp only [Table.mem_keys_insert, not_or, List.mem_map, not_exists, not_and]
      constructor
      · rintro ⟨hnodup, hrest⟩
        exact ⟨⟨fun g hg => (hrest g hg).1, hnodup⟩, hnotMem, fun g hg => (hrest g hg).2⟩
      · rintro ⟨⟨hne, hnodup⟩, -, hrest⟩
        exact ⟨hnodup, fun g hg => ⟨hne g hg, hrest g hg⟩⟩

/-! ## Deleting -/

theorem delete_memory {stem : String} {t : Files} (h : stem ∈ Table.keys t) :
    memory.delete stem t = .ok () (Table.erase stem t) := by
  have hsome : (Table.find? stem t).isSome = true := Table.find?_isSome_iff.mpr h
  have hget : (get : Action Files Files) t = .ok t t := rfl
  have herase : (modify (Table.erase stem) : Action Files Unit) t = .ok () (Table.erase stem t) := rfl
  simp only [memory, delete, bind, EStateM.bind, hget, hsome, if_true, herase]

theorem mem_keys_erase {stem k : String} {t : Files} :
    k ∈ Table.keys (Table.erase stem t) ↔ k ∈ Table.keys t ∧ k ≠ stem := by
  simp only [Table.keys, Table.erase, List.mem_map, List.mem_filter, decide_eq_true_eq]
  constructor
  · rintro ⟨e, ⟨he, hne⟩, rfl⟩
    exact ⟨⟨e, he, rfl⟩, hne⟩
  · rintro ⟨⟨e, he, rfl⟩, hne⟩
    exact ⟨e, ⟨he, hne⟩, rfl⟩

/-- Stems that are there, each named once, can be deleted in turn. -/
theorem deleteAll_memory {stems : List String} {t : Files} (hin : ∀ s ∈ stems, s ∈ Table.keys t)
    (hnodup : stems.Nodup) :
    memory.deleteAll stems t = .ok () (t.filter fun e => e.1 ∉ stems) := by
  induction stems generalizing t with
  | nil => simp [deleteAll, pure, EStateM.pure]
  | cons s rest ih =>
    obtain ⟨hs, hrest⟩ := List.nodup_cons.mp hnodup
    have hin' : ∀ k ∈ rest, k ∈ Table.keys (Table.erase s t) := fun k hk =>
      mem_keys_erase.mpr ⟨hin k (List.mem_cons_of_mem _ hk), fun he => hs (he ▸ hk)⟩
    have hstep : memory.deleteAll (s :: rest) t = memory.deleteAll rest (Table.erase s t) := by
      simp only [deleteAll, bind, EStateM.bind, delete_memory (hin s (List.mem_cons_self ..))]
    rw [hstep, ih hin' hrest, Table.erase, List.filter_filter]
    congr 2
    funext e
    simp [List.mem_cons, not_or, Bool.and_comm]

/-! ## Removing the hidden tier -/

def isHiddenEntry (e : String × TestFile) : Bool := e.2.hidden

/-- Only hidden files go, and all of them. -/
theorem removeHidden_memory {t : Files} (h : Table.Sorted t) :
    memory.removeHidden t = .ok (Table.keys (t.filter isHiddenEntry)) (t.filter fun e => ! isHiddenEntry e) := by
  have hlist : memory.list t = .ok t t := rfl
  have hstems : (t.filter fun e => e.2.hidden).map Prod.fst = Table.keys (t.filter isHiddenEntry) := rfl
  have hdelete := deleteAll_memory (Table.keys_filter_subset (p := isHiddenEntry))
    (Table.nodup_keys (h.filter isHiddenEntry))
  rw [Table.filter_key_notMem h isHiddenEntry] at hdelete
  simp only [removeHidden, bind, EStateM.bind, hlist, hstems, hdelete]
  rfl

end Handout.Store.Memory
