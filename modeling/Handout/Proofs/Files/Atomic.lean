/-
  Handout.Proofs.Files.Atomic — replacing a file of a directory: all or nothing.

  The new text is written beside the file, under a name that is free there
  (`unused_temporary`), and then takes its place (`ends_beside`). When this succeeds the file holds the text
  and all else is as it was; when it does not, everything is: what the device let through of
  the text is removed again (`ends_takeBack`). A device that never fails refuses only where a
  name or a path is too long, or where a directory is in the way (`Roomy`). All of this is
  `ends_writeAtomic`.
-/

import Handout.Proofs.Files.Effects

open Handout.Action

namespace Handout

namespace Files

/-- The last name of the path under which the new text of a file is written. -/
def temporaryName (n tag : String) : String := "." ++ n ++ "-" ++ tag ++ ".tmp"

variable {n : String}

theorem isName_temporaryName (hn : '/' ∉ n.toList) (k : Nat) : Path.IsName (temporaryName n (tagOf k)) := by
  have hsize : ∀ s : String, s.utf8ByteSize ≤ 2 → temporaryName n (tagOf k) ≠ s := by
    rintro s hs rfl
    have htmp : ".tmp".utf8ByteSize = 4 := by decide
    simp only [temporaryName, String.utf8ByteSize_append, htmp] at hs
    omega
  refine ⟨hsize "" (by decide), hsize "." (by decide), hsize ".." (by decide), ?_⟩
  have hdot : '/' ∉ ".".toList := by decide
  have hdash : '/' ∉ "-".toList := by decide
  have htmp : '/' ∉ ".tmp".toList := by decide
  simp only [temporaryName, String.toList_append, List.mem_append, not_or]
  exact ⟨⟨⟨⟨hdot, hn⟩, hdash⟩, noSlash_tagOf k⟩, htmp⟩

theorem temporaryName_inj {j k : Nat} (h : temporaryName n (tagOf j) = temporaryName n (tagOf k)) : j = k := by
  have hlist := congrArg String.toList h
  simp only [temporaryName, String.toList_append, List.append_assoc, List.append_cancel_left_eq,
    List.append_cancel_right_eq] at hlist
  exact tagOf_inj (String.toList_inj.mp hlist)

/-- It is longer than the name of the file. -/
theorem utf8ByteSize_lt_temporaryName (n tag : String) : n.utf8ByteSize < (temporaryName n tag).utf8ByteSize := by
  have hdot : ".".utf8ByteSize = 1 := by decide
  simp only [temporaryName, String.utf8ByteSize_append, hdot]
  omega

/-- The new text of a file goes to the same directory. -/
theorem temporary_join (hn : Path.IsName n) (base : Path) : ∃ q before,
    (∀ tag, temporary (Path.join base n) tag = Path.join q (temporaryName n tag)) ∧
      Path.beginning base = Path.beginning q ++ before ∧ (∀ i ∈ before, Path.Idle i) ∧
      q.isAbsolute = Path.isAbsolute base := by
  obtain ⟨q, before, hq, hbeginning, hbefore, habsolute⟩ := hn.parent?_join base
  refine ⟨q, before, fun tag => ?_, hbeginning, hbefore, habsolute⟩
  rw [temporary, hq, hn.fileName?_join]
  rfl

end Files

namespace Workspace

open FileTree (WellFormed Fits maxPath maxName)
open Files (temporary temporaryName isName_temporaryName)

variable {w w' : Workspace} {base : Path} {left : Nat} {r : Location} {seen : List Location} {n : String}

/-- The paths beside a file are those of names in the same directory. -/
theorem leadsTo_beside (h : w.LeadsTo base left r seen) (hn : Path.IsName n) : ∃ q, w.LeadsTo q left r seen ∧
    ∀ tag, temporary (Path.join base n) tag = Path.join q (temporaryName n tag) := by
  obtain ⟨q, before, hjoin, hbeginning, hbefore, habsolute⟩ := Files.temporary_join hn base
  refine ⟨q, ?_, hjoin⟩
  rw [LeadsTo, start, habsolute, ← start]
  rw [LeadsTo, hbeginning] at h
  exact FileTree.Way.of_idles h hbefore

/-- The path beside a file, in the same directory, has a free name there or is too long. -/
theorem unused_temporary (hw : w.tree.WellFormed) (hr : w.tree.node? r = some .directory)
    (h : w.LeadsTo base left r seen) (hn : Path.IsName n) : ∃ q k, w.LeadsTo q left r seen ∧
      w.unused (temporary (Path.join base n)) = Path.join q (temporaryName n (tagOf k)) ∧
      temporary (Path.join base n) (tagOf k) = Path.join q (temporaryName n (tagOf k)) ∧
      ((Path.join q (temporaryName n (tagOf k))).utf8ByteSize ≤ maxPath →
        w.tree.node? (r ++ [temporaryName n (tagOf k)]) = none) := by
  obtain ⟨q, hq, hjoin⟩ := leadsTo_beside h hn
  obtain ⟨k, hk, hfree⟩ := unused_child hw hr hq hjoin (fun k => isName_temporaryName hn.noSlash k)
    fun _ _ => Files.temporaryName_inj
  exact ⟨q, k, hq, hk, hjoin _, hfree⟩

/-- A file of a directory can be replaced: no directory is in its place, and neither its path nor the one beside it,
    nor a name of theirs, is too long. -/
structure Roomy (w : Workspace) (base : Path) (n : String) (r : Location) : Prop where
  noDirectory : w.tree.node? (r ++ [n]) ≠ some .directory
  path : (Path.join base n).utf8ByteSize ≤ maxPath
  beside : (w.unused (temporary (Path.join base n))).utf8ByteSize ≤ maxPath
  name : ∀ k, w.unused (temporary (Path.join base n)) = temporary (Path.join base n) (tagOf k) →
    (temporaryName n (tagOf k)).utf8ByteSize ≤ maxName

/-- A file can be replaced when nothing has the first of the names that are tried for its new text. -/
theorem roomy_of_free (hr : w.tree.node? r = some .directory) (h : w.LeadsTo base left r seen) (hn : Path.IsName n)
    (hnoDirectory : w.tree.node? (r ++ [n]) ≠ some .directory) (hfree : w.tree.node? (r ++ [temporaryName n (tagOf 0)]) = none)
    (hpath : (Path.join base n).utf8ByteSize ≤ maxPath)
    (hbeside : (temporary (Path.join base n) (tagOf 0)).utf8ByteSize ≤ maxPath)
    (hname : (temporaryName n (tagOf 0)).utf8ByteSize ≤ maxName) : Roomy w base n r := by
  obtain ⟨q, hq, hjoin⟩ := leadsTo_beside h hn
  have hm := isName_temporaryName hn.noSlash
  have hunused : w.unused (temporary (Path.join base n)) = temporary (Path.join base n) (tagOf 0) := by
    refine unused_eq_of_free (Option.eq_none_iff_forall_ne_some.mpr fun node hnode => ?_)
    obtain ⟨l, hfound, -⟩ := nodeAt?_eq_some.mp hnode
    exact ((lands_child hq hr (hm 0)).found (hjoin _ ▸ hfound)).2 hfree
  refine ⟨hnoDirectory, hpath, hunused ▸ hbeside, fun k hk => ?_⟩
  have hlast := congrArg List.getLast? (congrArg FileTree.namesOf (hunused.symm.trans hk))
  rw [hjoin, hjoin, (hm 0).namesOf_join, (hm k).namesOf_join, List.getLast?_concat, List.getLast?_concat,
    Option.some.injEq] at hlast
  exact hlast ▸ hname

/-- Each place is as it was. -/
structure Unchanged (w w' : Workspace) : Prop where
  wellFormed : w'.tree.WellFormed
  cwd : w'.cwd = w.cwd
  node? : ∀ l, w'.tree.node? l = w.tree.node? l

theorem store?_fits {c : Content} (h : w.LeadsTo base left r seen) (hn : Path.IsName n)
    (hstored : w.store? (Path.join base n) c = some w') : Fits n ∧ (Path.join base n).utf8ByteSize ≤ maxPath := by
  refine fits_of_landing_child (l := w.follow (Path.join base n)) h hn rfl fun why hblocked => ?_
  rw [store?, hblocked] at hstored
  cases hstored

/-- Where nothing or a file was, no way is lost by what is put there. -/
theorem Sets.leadsTo {loc : Location} {node : Option Node}
    (hwas : w.tree.node? loc = none ∨ ∃ c, w.tree.node? loc = some (.file c)) (h : Sets loc node w w')
    (hleads : w.LeadsTo base left r seen) : w'.LeadsTo base left r seen := by
  rw [LeadsTo, start_congr h.cwd]
  refine FileTree.Way.congr hleads fun l hl => h.node?_of_ne ?_
  rintro rfl
  have hthere := FileTree.Way.directory_or_link hleads l hl
  rcases hwas with hnone | ⟨c, hfile⟩
  · simp [hnone] at hthere
  · simp [hfile] at hthere

theorem Unchanged.refl (hw : w.tree.WellFormed) : Unchanged w w := ⟨hw, rfl, fun _ => rfl⟩

/-- What was made at a free place is removed. -/
theorem Sets.undone {w'' : Workspace} {loc : Location} {node : Option Node} (hfree : w.tree.node? loc = none)
    (h : Sets loc node w w') (h' : Sets loc none w' w'') : Unchanged w w'' := by
  refine ⟨h'.wellFormed, h'.cwd.trans h.cwd, fun l => ?_⟩
  by_cases hl : l = loc
  · rw [hl, h'.node?_self, hfree]
  · rw [h'.node?_of_ne hl, h.node?_of_ne hl]

/-- What is stored under a free name is there, and all else as it was. -/
theorem sets_of_stored {c : Content} (hw : w.tree.WellFormed) (hr : w.tree.node? r = some .directory)
    (h : w.LeadsTo base left r seen) (hn : Path.IsName n)
    (hfree : (Path.join base n).utf8ByteSize ≤ maxPath → w.tree.node? (r ++ [n]) = none)
    (hstored : w.store? (Path.join base n) c = some w') :
    Fits n ∧ (Path.join base n).utf8ByteSize ≤ maxPath ∧ Sets (r ++ [n]) (some (.file c)) w w' := by
  obtain ⟨hfits, hsize⟩ := store?_fits h hn hstored
  rw [store?_child h hfits hsize (hfree hsize)] at hstored
  obtain rfl := Option.some.inj hstored
  exact ⟨hfits, hsize, sets_put hw hr hfits (by rw [hfree hsize]; simp)⟩

end Workspace

namespace Files

open Workspace FileTree

variable {w w₁ : Workspace} {q p base : Path} {left : Nat} {r : Location} {seen : List Location} {m n text : String} {c : Content}
  {device : Device} {newId : List String → String} {Q : Unit → Workspace → Prop} {E : Failure → Workspace → Prop}

/-- What was written beside a path, the text or a part of it, is removed again. -/
theorem ends_takeBack (hr : w.tree.node? r = some .directory) (hq : w.LeadsTo q left r seen) (hm : Fits m)
    (hsize : (Path.join q m).utf8ByteSize ≤ maxPath) (hfree : w.tree.node? (r ++ [m]) = none)
    (hset : Sets (r ++ [m]) (some (.file c)) w w₁) (hback : ∀ w', Unchanged w w' → Q () w') :
    ((filesOn device newId).remove (Path.join q m)).Ends w₁ Q E := by
  have hq₁ : w₁.LeadsTo q left r seen := hset.leadsTo (Or.inl hfree) hq
  have hr₁ : w₁.tree.node? r = some .directory := by
    rw [hset.node?_of_ne (by simp), hr]
  have hfile := hset.node?_self
  have hremoved := remove?_child hq₁ hm hsize (by rw [hfile]; simp) (by rw [hfile]; simp)
  refine ends_perform.mpr ⟨fun w' hw' => ?_, fun hnone => absurd (hremoved.symm.trans hnone) (by simp)⟩
  exact hback w' (hset.undone hfree (remove?_sets hset.wellFormed (lands_child hq₁ hr₁ hm.isName) hw'))

/-- A text is written beside a path and takes its place, or everything is as it was: it was not written, or not as a whole, or it
    was and could not be moved, and what there was of it is removed again. -/
theorem ends_beside (hw : w.tree.WellFormed) (hr : w.tree.node? r = some .directory) (hq : w.LeadsTo q left r seen)
    (hm : Path.IsName m) (hfree : (Path.join q m).utf8ByteSize ≤ maxPath → w.tree.node? (r ++ [m]) = none)
    (hmoved : ∀ w₁ w₂, Fits m → (Path.join q m).utf8ByteSize ≤ maxPath → Sets (r ++ [m]) (some (.file (.text text))) w w₁ →
      w₁.rename? (Path.join q m) p = some w₂ → Q () w₂)
    (hback : ∀ w', Unchanged w w' → ((w.writeOn device (Path.join q m) text).2 = false ∨ ∃ w₁, Fits m ∧
      (Path.join q m).utf8ByteSize ≤ maxPath ∧ Sets (r ++ [m]) (some (.file (.text text))) w w₁ ∧
      w₁.renameOn device (Path.join q m) p = none) → E .refused w') :
    Ends (do
      orUndo ((filesOn device newId).write (Path.join q m) text) ((filesOn device newId).remove (Path.join q m))
      orUndo ((filesOn device newId).rename (Path.join q m) p) ((filesOn device newId).remove (Path.join q m))) w Q E := by
  refine ends_bind.mpr (ends_orUndo.mpr (ends_write.mpr ?_))
  rcases writeOn_spec device w (Path.join q m) text with heq | ⟨c, w₁, hstored, heq, hc⟩
  · -- nothing is there to be removed
    rw [heq]
    refine ⟨fun hdone => ?_, fun _ => ends_perform.mpr ⟨fun w₁ hw₁ => ?_, fun _ => ?_⟩⟩
    · cases hdone
    · cases (remove?_free hq hm hfree).symm.trans hw₁
    · exact hback w (.refl hw) (Or.inl (congrArg Prod.snd heq))
  · obtain ⟨hfits, hsize, hset⟩ := sets_of_stored hw hr hq hm hfree hstored
    rw [heq]
    refine ⟨fun hdone => ?_, fun hnot => ?_⟩
    · -- the text is beside the path
      obtain rfl := hc hdone
      refine ends_orUndo.mpr (ends_renameOn.mpr ⟨fun w₂ hrenamed => ?_, fun hrefused => ?_⟩)
      · exact hmoved w₁ w₂ hfits hsize hset (rename?_of_renameOn hrenamed)
      · refine ends_takeBack hr hq hfits hsize (hfree hsize) hset fun w' hundone => ?_
        exact hback w' hundone (Or.inr ⟨w₁, hfits, hsize, hset, hrefused⟩)
    · -- a part of it is
      exact ends_takeBack hr hq hfits hsize (hfree hsize) hset fun w' hundone => hback w' hundone (Or.inl hnot)

/-- The text is there, and all else as it was; or everything is as it was, and then a device that never fails has no room. -/
theorem ends_writeAtomic (hw : w.tree.WellFormed) (hr : w.tree.node? r = some .directory) (h : w.LeadsTo base left r seen)
    (hn : Path.IsName n) (text : String) : ((filesOn device newId).writeAtomic (Path.join base n) text).Ends w
      (fun _ w' => (Path.join base n).utf8ByteSize ≤ maxPath ∧ w.tree.node? (r ++ [n]) ≠ some .directory ∧
        Sets (r ++ [n]) (some (.file (.text text))) w w')
      fun f w' => f = .refused ∧ Unchanged w w' ∧ (device = .sound → ¬ Roomy w base n r) := by
  obtain ⟨q, k, hq, hunused, htag, hfree⟩ := unused_temporary hw hr h hn
  have hm := isName_temporaryName hn.noSlash k
  have hlonger := utf8ByteSize_lt_temporaryName n (tagOf k)
  have hroom : Roomy w base n r → (Path.join q (temporaryName n (tagOf k))).utf8ByteSize ≤ maxPath ∧
      (temporaryName n (tagOf k)).utf8ByteSize ≤ maxName := fun hroom =>
    ⟨hunused ▸ hroom.beside, hroom.name k (hunused.trans htag.symm)⟩
  refine ends_bind.mpr (ends_unused.mpr ?_)
  rw [hunused]
  generalize temporaryName n (tagOf k) = m at hm hlonger hfree hroom ⊢
  have hne : n ≠ m := fun he => absurd (he ▸ hlonger) (Nat.lt_irrefl _)
  have hapart : ¬ r ++ [m] <+: r ++ [n] := by
    simpa using Ne.symm hne
  refine ends_beside hw hr hq hm hfree (fun w₁ w₂ hfits hsize hset hrenamed => ?_) fun w' hback hstopped => ?_
  · have hq₁ : w₁.LeadsTo q left r seen := hset.leadsTo (Or.inl (hfree hsize)) hq
    have h₁ : w₁.LeadsTo base left r seen := hset.leadsTo (Or.inl (hfree hsize)) h
    have hr₁ : w₁.tree.node? r = some .directory := by
      rw [hset.node?_of_ne (by simp), hr]
    have hmoved := rename?_moved_child hset.wellFormed hq₁ hr₁ hm h₁ hr₁ hn (fun he => hapart (he ▸ List.prefix_refl _)) hrenamed
    exact ⟨(rename?_short hrenamed).2, hset.not_over_directory hmoved, hset.moved hw (hfree hsize) hmoved⟩
  · refine ⟨rfl, hback, fun hsound hroomy => ?_⟩
    subst hsound
    rcases hstopped with hnot | ⟨w₁, hfits, hsize, hset, hrefused⟩
    · obtain ⟨hsize, hshort⟩ := hroom hroomy
      rw [writeOn_sound (store?_child hq ⟨hm, hshort⟩ hsize (hfree hsize) _)] at hnot
      cases hnot
    · have hfitsn : Fits n := ⟨hn, (Nat.le_of_lt hlonger).trans hfits.short⟩
      have htarget : w₁.tree.node? (r ++ [n]) ≠ some .directory := by
        rw [hset.node?_of_ne (by simpa using hne)]
        exact hroomy.noDirectory
      obtain ⟨w₂, hsome⟩ := rename?_file (hset.leadsTo (Or.inl (hfree hsize)) hq) hfits hset.node?_self hsize
        (hset.leadsTo (Or.inl (hfree hsize)) h) hfitsn htarget hroomy.path hapart
      cases hsome.symm.trans hrefused

end Files
end Handout
