/-
  Handout.Proofs.Files.Replacing — replacing a file by any path: all or nothing.

  A path that ends in a name has its entry in the directory that the path before the name
  leads to (`EntryAt`). There `ends_writeAtomic` says what comes of it. Any other path ends in a
  slash or in dots, or there is no such directory; then no file can take its place, and what was
  written beside it is removed (`ends_writeAtomic_nowhere`). So for every tree, every path and
  every device the entry of the path is a file with the text and all else is as it was, or
  everything is as it was (`replaces_or_unchanged`). In the first case the path leads to the file, unless it
  goes through the link that the file replaced (`text?_iff_of_sets`): `l/../l` is such a path where
  `l` is a link to a directory (`way_is_lost`).
-/

import Handout.Proofs.Files.Atomic

open Handout.Action

namespace Handout

namespace Workspace

open FileTree (WellFormed Fits Way Landing maxPath maxName maxLinks)
open Files (temporary temporaryName isName_temporaryName temporaryName_inj)

variable {w w' : Workspace} {p q base : Path} {left : Nat} {r place : Location} {seen : List Location} {m n : String}
  {text : String} {device : Device} {newId : List String → String}

/-- The place that a path names, and what is seen on the way to the directory it is in. -/
inductive EntryAt (w : Workspace) : Path → Location → List Location → Prop
  | intro {base : Path} {n : String} {left : Nat} {r : Location} {seen : List Location} :
      Path.IsName n → w.LeadsTo base left r seen → EntryAt w (Path.join base n) (r ++ [n]) seen

/-! ## Where no file can be -/

theorem store?_of_not_leads (hq : ¬ w.Leads q) (hm : Path.IsName m) (c : Content) : w.store? (Path.join q m) c = none := by
  have hlanding : w.follow (Path.join q m) = .missing ∨ ∃ why, w.follow (Path.join q m) = .blocked why :=
    landing_of_not_leads hq hm
  rw [store?]
  rcases hlanding with hstop | ⟨_, hstop⟩ <;> rw [hstop]

theorem remove?_of_not_leads (hq : ¬ w.Leads q) (hm : Path.IsName m) : w.remove? (Path.join q m) = none := by
  have hlanding : w.entry (Path.join q m) = .missing ∨ ∃ why, w.entry (Path.join q m) = .blocked why :=
    landing_of_not_leads hq hm
  rw [remove?]
  rcases hlanding with hstop | ⟨_, hstop⟩ <;> rw [hstop]

/-- A path that ends in no name leads to a directory, if anywhere. -/
theorem entry_unnamed (hw : w.tree.WellFormed) (hcwd : w.tree.node? w.cwd = some .directory) {ns : List String}
    (hnames : FileTree.namesOf p = ns ++ [n]) (hn : Path.Idle n ∨ n = "..") : (w.entry p).IsForDirectory w.tree := by
  rw [entry, FileTree.landing]
  split
  · trivial
  · split
    · trivial
    · rw [hnames]
      refine FileTree.walk_unnamed hw ?_ hn
      split
      · rfl
      · exact hcwd

/-- What is no directory cannot take the place of one, nor be made where one is meant. -/
theorem rename?_refused (hsource : ∀ a, w.entry p = .found a → w.tree.node? a ≠ some .directory)
    (htarget : (w.entry q).IsForDirectory w.tree) : w.rename? p q = none := by
  rw [rename?]
  split
  · rename_i a hfound
    have ha := hsource a hfound
    have hfile : (w.tree.node? a == some .directory) = false := beq_eq_false_iff_ne.mpr ha
    cases hlanding : w.entry q with
    | found b =>
      rw [hlanding] at htarget
      have hb : w.tree.node? b = some .directory := htarget
      have hne : a ≠ b := fun he => ha (he ▸ hb)
      simp [hfile, hb, hne]
    | vacant b slash =>
      rw [hlanding] at htarget
      have hslash : slash = true := htarget
      simp [hfile, hslash]
    | missing => rfl
    | blocked => rfl
  · rfl

/-! ## The path beside a path -/

theorem noSlash_fileName (p : Path) : '/' ∉ ((Path.fileName? p).getD "").toList := by
  cases hname : Path.fileName? p with
  | none => decide
  | some n => exact (Path.isName_of_fileName? hname).noSlash

/-- A path that names nothing and whose directory is there ends in no name. -/
theorem unnamed_of_leads (hq : w.Leads ((Path.parent? p).getD ".")) (hnowhere : ∀ place seen, ¬ w.EntryAt p place seen) :
    ∃ ns n, FileTree.namesOf p = ns ++ [n] ∧ (Path.Idle n ∨ n = "..") := by
  refine (Path.join_or_unnamed p).resolve_left ?_
  rintro ⟨base, n, hn, rfl⟩
  obtain ⟨q, before, hparent, hbeginning, hbefore, habsolute⟩ := hn.parent?_join base
  rw [hparent, Option.getD_some] at hq
  obtain ⟨left, r, seen, hleads⟩ := hq
  refine hnowhere _ _ (@EntryAt.intro w base n left r seen hn ?_)
  rw [LeadsTo, start, ← habsolute, ← start, hbeginning]
  exact Way.idles hleads hbefore

end Workspace

open Workspace FileTree Files in
/-- What names no place in a directory is not written, and everything is as it was. -/
theorem Files.ends_writeAtomic_nowhere {w : Workspace} {p : Path} {device : Device} {newId : List String → String}
    (hw : w.tree.WellFormed) (hcwd : w.tree.node? w.cwd = some .directory) (hnowhere : ∀ place seen, ¬ w.EntryAt p place seen)
    (text : String) : ((filesOn device newId).writeAtomic p text).Ends w (fun _ _ => False)
      fun f w' => f = .refused ∧ Unchanged w w' := by
  have hmake : ∀ tag, temporary p tag =
      Path.join ((Path.parent? p).getD ".") (temporaryName ((Path.fileName? p).getD "") tag) := fun _ => rfl
  have hm := isName_temporaryName (noSlash_fileName p)
  have hunnamed := unnamed_of_leads (w := w) (p := p)
  generalize (Path.parent? p).getD "." = q at hmake hunnamed
  generalize (Path.fileName? p).getD "" = name at hmake hm
  refine ends_bind.mpr (ends_unused.mpr ?_)
  by_cases hq : w.Leads q
  · obtain ⟨ns, n, hnames, hn⟩ := hunnamed hq hnowhere
    obtain ⟨left, r, seen, hleads⟩ := hq
    have hr := hleads.directory hw hcwd
    obtain ⟨k, hunused, hfree⟩ := unused_child hw hr hleads hmake hm fun _ _ => temporaryName_inj
    have hm := hm k
    rw [hunused]
    generalize temporaryName name (tagOf k) = m at hm hfree ⊢
    refine Files.ends_beside hw hr hleads hm hfree (fun w₁ w₂ hfits hsize hset hrenamed => ?_) fun w' hback _ => ⟨rfl, hback⟩
    -- the path leads to a directory, if anywhere, and a file does not take its place
    have hkept : ∀ l, w.tree.node? l = some .directory → w₁.tree.node? l = some .directory := by
      intro l hl
      rw [hset.node?_of_ne, hl]
      rintro rfl
      rw [hfree hsize] at hl
      cases hl
    have htarget := entry_unnamed hset.wellFormed (hset.cwd ▸ hkept _ hcwd) hnames hn
    have hrefused : w₁.rename? (Path.join q m) p = none := by
      refine rename?_refused (fun a hfound => ?_) htarget
      obtain ⟨rfl, -⟩ := (lands_child (hset.leadsTo (Or.inl (hfree hsize)) hleads) (hkept r hr) hm).found hfound
      rw [hset.node?_self]
      simp
    rw [hrefused] at hrenamed
    cases hrenamed
  · obtain ⟨k, hunused⟩ := w.exists_unused (temporary p)
    rw [hunused, hmake]
    have hwritten : w.writeOn device (Path.join q (temporaryName name (tagOf k))) text = (w, false) := by
      rcases writeOn_spec device w (Path.join q (temporaryName name (tagOf k))) text with heq | ⟨c, w₁, hstored, -, -⟩
      · exact heq
      · cases (store?_of_not_leads hq (hm k) c).symm.trans hstored
    have hremoved := remove?_of_not_leads hq (hm k)
    refine ends_bind.mpr (ends_orUndo.mpr (ends_write.mpr ⟨fun hdone => ?_, fun _ => ?_⟩))
    · cases (congrArg Prod.snd hwritten).symm.trans hdone
    · rw [hwritten]
      refine ends_perform.mpr ⟨fun w₁ hw₁ => ?_, fun _ => ⟨rfl, .refl hw⟩⟩
      cases hremoved.symm.trans hw₁

namespace Workspace

open FileTree (WellFormed Fits Way maxPath maxLinks)

variable {w w' : Workspace} {p base : Path} {left : Nat} {r place : Location} {seen : List Location} {n : String} {text : String}
  {device : Device} {newId : List String → String}

/-! ## What the path leads to -/

/-- A path leads to the file that was put where it names a place, unless it goes through that place. -/
theorem text?_iff_of_sets (h : w.LeadsTo base left r seen) (hn : Path.IsName n)
    (hsize : (Path.join base n).utf8ByteSize ≤ maxPath) (hset : Sets (r ++ [n]) (some (.file (.text text))) w w') :
    w'.text? (Path.join base n) = some text ↔ r ++ [n] ∉ seen := by
  have hthere : w'.tree.node? (r ++ [n]) ≠ none := by
    rw [hset.node?_self]
    simp
  constructor
  · intro htext hseen
    have hblocked : w'.follow (Path.join base n) = .blocked .notDirectory := by
      rw [Workspace.follow, landing_eq (hn.join_ne_empty base) hsize, start, Path.isAbsolute_join hn.isAbsolute, hn.namesOf_join,
        ← start, start_congr hset.cwd]
      exact Way.walk_blocked h hset.node?_self (fun l _ hl => hset.node?_of_ne hl) hseen (by simp)
    rw [Workspace.text?, hblocked] at htext
    cases htext
  · intro hunseen
    have hleads : w'.LeadsTo base left r seen := by
      rw [LeadsTo, start_congr hset.cwd]
      refine Way.congr h fun l hl => hset.node?_of_ne ?_
      rintro rfl
      exact hunseen hl
    have hfollow := follow_child hleads (hset.wellFormed.name hthere) hsize hthere (by simp [hset.node?_self])
    rw [Workspace.text?, hfollow, nodeAt?, hset.node?_self]

/-- A file has been put where a path names a place, which was free or held a file or a link. All else is as it was. -/
structure Replaced (w : Workspace) (p : Path) (text : String) (place : Location) (seen : List Location) (w' : Workspace) :
    Prop where
  entry : w.EntryAt p place seen
  noDirectory : w.tree.node? place ≠ some .directory
  sets : Sets place (some (.file (.text text))) w w'
  /-- The path leads to the file, unless it goes through the place of the file. -/
  text? : w'.text? p = some text ↔ place ∉ seen
  /-- What it goes through there was a link. -/
  link : place ∈ seen → ∃ target, w.tree.node? place = some (.link target)

/-- By whatever path and on whatever device a file is replaced, it holds the text and all else is as it was, or everything is as
    it was. -/
theorem replaces_or_unchanged (device : Device) (newId : List String → String) (hw : w.tree.WellFormed)
    (hcwd : w.tree.node? w.cwd = some .directory) (p : Path) (text : String) : ((filesOn device newId).writeAtomic p text).Ends w
      (fun _ w' => ∃ place seen, Replaced w p text place seen w') fun f w' => f = .refused ∧ Unchanged w w' := by
  by_cases hentry : ∃ place seen, w.EntryAt p place seen
  · obtain ⟨place, seen, hentry⟩ := hentry
    cases hentry with
    | @intro base n left r seen hn hleads =>
      refine (Files.ends_writeAtomic hw (hleads.directory hw hcwd) hleads hn text).mono (fun _ w' hdone => ?_) fun f w' hfailed => ?_
      · obtain ⟨hsize, hnoDirectory, hset⟩ := hdone
        refine ⟨r ++ [n], seen, .intro hn hleads, hnoDirectory, hset, text?_iff_of_sets hleads hn hsize hset, fun hseen => ?_⟩
        exact (Way.directory_or_link hleads _ hseen).resolve_left hnoDirectory
      · exact ⟨hfailed.1, hfailed.2.1⟩
  · have hnowhere : ∀ place seen, ¬ w.EntryAt p place seen := fun place seen hat => hentry ⟨place, seen, hat⟩
    exact (Files.ends_writeAtomic_nowhere hw hcwd hnowhere text).mono (fun _ _ hnever => hnever.elim) fun _ _ hfailed => hfailed

/-! ## A link that is replaced -/

/-- A directory, and a link to it. -/
def linked : Workspace := ⟨⟨[(["d"], .directory), (["l"], .link "d")]⟩, [], []⟩

/-- Beside the directory a file in place of the link. -/
def unlinked : Workspace := ⟨⟨[(["d"], .directory), (["l"], .file (.text "text"))]⟩, [], []⟩

/-- A device that gives out after two bytes. -/
def small : Device := ⟨fun _ _ _ => .cut 2, fun _ _ _ => true⟩

/-- A file takes the place of the link. When only a part of its text can be written, that part is removed again. -/
theorem link_is_replaced : linked.tree.WellFormed ∧ linked.tree.node? linked.cwd = some .directory ∧
    (∃ place seen w', ((files fun _ => "").writeAtomic "l" "text").outcome linked = (.ok (), w') ∧
      Replaced linked "l" "text" place seen w') ∧
    (linked.writeOn small "t" "text").1.text? "t" = some "te" ∧
      ∃ w', ((filesOn small fun _ => "").writeAtomic "l" "text").outcome linked = (.error .refused, w') ∧ Unchanged linked w' := by
  have hw : linked.tree.WellFormed := by decide
  have hends := replaces_or_unchanged .sound (fun _ => "") hw rfl "l" "text"
  have hcut := replaces_or_unchanged small (fun _ => "") hw rfl "l" "text"
  have hwritten : ((files fun _ => "").writeAtomic "l" "text").result linked = (none, unlinked) := by decide +kernel
  have hrefused : ((filesOn small fun _ => "").writeAtomic "l" "text").result linked = (some .refused, linked) := by decide +kernel
  have hdone := outcome_of_result_none hwritten
  have hfailed := outcome_of_result_some hrefused
  obtain ⟨place, seen, hreplaced⟩ := hends.of_ok hdone
  exact ⟨hw, rfl, ⟨place, seen, unlinked, hdone, hreplaced⟩, by decide +kernel, linked, hfailed, (hcut.of_error hfailed).2⟩

/-- A path that goes through the link to the link leads nowhere any more when a file has taken its place. -/
theorem way_is_lost : linked.tree.WellFormed ∧ linked.tree.node? linked.cwd = some .directory ∧
    ((files fun _ => "").writeAtomic "l/../l" "text").outcome linked = (.ok (), unlinked) ∧
      unlinked.isPresent "l/../l" = false ∧ unlinked.text? "l" = some "text" := by
  have hwritten : ((files fun _ => "").writeAtomic "l/../l" "text").result linked = (none, unlinked) := by decide +kernel
  exact ⟨by decide, rfl, outcome_of_result_none hwritten, by decide +kernel, by decide +kernel⟩

end Workspace
end Handout
