/-
  Handout.Proofs.Files.Operations — what holds after each operation on a workspace. A question
  leaves the workspace as it is; a change that is refused does, too, unless it is one
  that may be done in part. A write is of that kind: whatever the device, nothing is written,
  or the file holds some of the text, and all of it if the write succeeds (`writeOn_spec`).
-/

import Handout.Files.Atomic
import Handout.Proofs.Action
import Handout.Proofs.Files.Tag

open Handout.Action

namespace Handout

/-! ## Passing over failures -/

namespace Files

variable {σ α : Type} {s : σ} {x : Action σ α} {Q : α → σ → Prop} {E : Failure → σ → Prop}

theorem ends_attempt {x : Action σ Unit} {Q : Unit → σ → Prop} :
    (attempt x).Ends s Q E ↔ x.Ends s Q fun _ t => Q () t := by
  refine ends_tryCatch.trans ?_
  simp only [ends_pure]

/-- What failed is undone, and fails all the same. -/
theorem ends_orUndo {undo : Action σ Unit} :
    (orUndo x undo).Ends s Q E ↔ x.Ends s Q fun f t => undo.Ends t (fun _ u => E f u) fun _ u => E f u := by
  refine ends_tryCatch.trans ?_
  simp only [ends_bind, ends_attempt, ends_throw]

variable {I : σ → Prop} {P : α → Prop}

theorem keeps_attempt {x : Action σ Unit} (h : Keeps I x fun _ => True) : Keeps I (attempt x) fun _ => True :=
  h.tryCatch fun _ => .pure trivial

theorem keeps_orUndo {undo : Action σ Unit} (hx : Keeps I x P) (hundo : Keeps I undo fun _ => True) :
    Keeps I (orUndo x undo) P :=
  hx.tryCatch fun f => (keeps_attempt hundo).bind fun _ _ => .throw f

end Files

/-! ## Questions and changes -/

namespace Workspace

variable {w : Workspace} {α : Type} {I : Workspace → Prop} {P : α → Prop} {device : Device} {newId : List String → String}

theorem ends_perform {change : Workspace → Option Workspace} {Q : Unit → Workspace → Prop} {E : Failure → Workspace → Prop} :
    (perform change).Ends w Q E ↔ (∀ w', change w = some w' → Q () w') ∧ (change w = none → E .refused w) := by
  refine (ends_bind.trans ends_get).trans ?_
  cases change w with
  | none => exact ends_throw.trans (by simp)
  | some w' => exact ends_set.trans (by simp)

theorem ends_performPart {change : Workspace → Attempt} {Q : Unit → Workspace → Prop} {E : Failure → Workspace → Prop} :
    (performPart change).Ends w Q E ↔
      ((change w).2 = true → Q () (change w).1) ∧ ((change w).2 = false → E .refused (change w).1) := by
  refine (ends_bind.trans ends_get).trans ((ends_bind.trans ends_set).trans ?_)
  cases (change w).2 with
  | false => exact ends_throw.trans (by simp)
  | true => exact ends_pure.trans (by simp)

theorem ends_ask {question : Workspace → Option α} {Q : α → Workspace → Prop} {E : Failure → Workspace → Prop} :
    (ask question).Ends w Q E ↔ (∀ a, question w = some a → Q a w) ∧ (question w = none → E .refused w) := by
  refine (ends_bind.trans ends_get).trans ?_
  cases question w with
  | none => exact ends_throw.trans (by simp)
  | some a => exact ends_pure.trans (by simp)

theorem outcome_ask {question : Workspace → Option α} {a : α} (h : question w = some a) :
    (ask question).outcome w = (.ok a, w) := by
  unfold ask
  rw [outcome_bind (outcome_get w), h]
  rfl

theorem ends_query {f : Workspace → α} {Q : α → Workspace → Prop} {E : Failure → Workspace → Prop} :
    Ends (do return f (← get)) w Q E ↔ Q (f w) w := (ends_bind.trans ends_get).trans ends_pure

section

variable {Q : Unit → Workspace → Prop} {E : Failure → Workspace → Prop} {p q : Path}

theorem storePart_cases (w : Workspace) (p : Path) (c : Content) (done : Bool) :
    w.storePart p c done = (w, false) ∨ ∃ w', w.store? p c = some w' ∧ w.storePart p c done = (w', done) := by
  rw [storePart]
  cases w.store? p c with
  | none => exact Or.inl rfl
  | some w' => exact Or.inr ⟨w', rfl, rfl⟩

/-- Nothing is written, or the file holds something: the text, if the write is done. -/
theorem writeOn_spec (device : Device) (w : Workspace) (p : Path) (s : String) : w.writeOn device p s = (w, false) ∨
    ∃ c w', w.store? p c = some w' ∧ (w.writeOn device p s).1 = w' ∧ ((w.writeOn device p s).2 = true → c = .text s) := by
  rw [writeOn]
  cases device.writing w p s with
  | denied => exact Or.inl rfl
  | whole =>
    refine (w.storePart_cases p (.text s) true).imp_right ?_
    rintro ⟨w', hstored, heq⟩
    exact ⟨_, w', hstored, congrArg Prod.fst heq, fun _ => rfl⟩
  | cut n =>
    refine (w.storePart_cases p (.part s n) false).imp_right ?_
    rintro ⟨w', hstored, heq⟩
    refine ⟨_, w', hstored, congrArg Prod.fst heq, fun hdone => ?_⟩
    cases (congrArg Prod.snd heq).symm.trans hdone

/-- On a sound device a text is written wherever the tree has room for it. -/
theorem writeOn_sound {w' : Workspace} {s : String} (h : w.store? p (.text s) = some w') :
    w.writeOn .sound p s = (w', true) := by
  simp only [writeOn, Device.sound, storePart, h]

theorem ends_write {s : String} : ((filesOn device newId).write p s).Ends w Q E ↔
    ((w.writeOn device p s).2 = true → Q () (w.writeOn device p s).1) ∧
      ((w.writeOn device p s).2 = false → E .refused (w.writeOn device p s).1) :=
  @ends_performPart w (·.writeOn device p s) Q E

theorem ends_isPresent {Q : Bool → Workspace → Prop} :
    ((files newId).isPresent p).Ends w Q E ↔ Q (w.isPresent p) w := ends_query

theorem ends_isDirectory {Q : Bool → Workspace → Prop} :
    ((files newId).isDirectory p).Ends w Q E ↔ Q (w.isDirectory p) w := ends_query

theorem ends_isLink {Q : Bool → Workspace → Prop} : ((files newId).isLink p).Ends w Q E ↔ Q (w.isLink p) w := ends_query

theorem ends_unused {make : String → Path} {Q : Path → Workspace → Prop} :
    ((filesOn device newId).unused make).Ends w Q E ↔ Q (w.unused make) w := ends_query

theorem ends_makeDirectories : ((files newId).makeDirectories p).Ends w Q E ↔
    ((w.makeDirectories (FileTree.maxPath + 1) p).2 = true → Q () (w.makeDirectories (FileTree.maxPath + 1) p).1) ∧
      ((w.makeDirectories (FileTree.maxPath + 1) p).2 = false →
        E .refused (w.makeDirectories (FileTree.maxPath + 1) p).1) :=
  @ends_performPart w (·.makeDirectories (FileTree.maxPath + 1) p) Q E

theorem ends_removeAll : ((files newId).removeAll p).Ends w Q E ↔
    ((w.removeAll p).2 = true → Q () (w.removeAll p).1) ∧ ((w.removeAll p).2 = false → E .refused (w.removeAll p).1) :=
  @ends_performPart w (·.removeAll p) Q E

theorem ends_renameOn : ((filesOn device newId).rename p q).Ends w Q E ↔
    (∀ w', w.renameOn device p q = some w' → Q () w') ∧ (w.renameOn device p q = none → E .refused w) :=
  @ends_perform w (·.renameOn device p q) Q E

theorem ends_rename : ((files newId).rename p q).Ends w Q E ↔
    (∀ w', w.rename? p q = some w' → Q () w') ∧ (w.rename? p q = none → E .refused w) := ends_renameOn

/-- What a device lets be moved is moved as the tree has it. -/
theorem rename?_of_renameOn {w' : Workspace} (h : w.renameOn device p q = some w') : w.rename? p q = some w' := by
  rw [renameOn] at h
  split at h
  · exact h
  · cases h

end

theorem keeps_perform {change : Workspace → Option Workspace} (h : ∀ w w', I w → change w = some w' → I w') :
    Keeps I (perform change) fun _ => True :=
  fun w hw => ends_perform.mpr ⟨fun w' hw' => ⟨h w w' hw hw', trivial⟩, fun _ => hw⟩

theorem keeps_performPart {change : Workspace → Attempt} (h : ∀ w, I w → I (change w).1) :
    Keeps I (performPart change) fun _ => True :=
  fun w hw => ends_performPart.mpr ⟨fun _ => ⟨h w hw, trivial⟩, fun _ => h w hw⟩

/-- A write keeps what is kept whatever is stored. -/
theorem keeps_write {p : Path} {s : String} (h : ∀ w w' c, I w → w.store? p c = some w' → I w') :
    Keeps I ((filesOn device newId).write p s) fun _ => True := by
  refine keeps_performPart fun w hw => ?_
  change I (w.writeOn device p s).1
  rcases writeOn_spec device w p s with heq | ⟨c, w', hstored, heq, -⟩
  · rw [heq]
    exact hw
  · rw [heq]
    exact h w w' c hw hstored

theorem keeps_ask {question : Workspace → Option α} (h : ∀ w a, I w → question w = some a → P a) : Keeps I (ask question) P :=
  fun w hw => ends_ask.mpr ⟨fun a ha => ⟨hw, h w a hw ha⟩, fun _ => hw⟩

theorem keeps_get {f : Workspace → α} (h : ∀ w, I w → P (f w)) : Keeps I (do return f (← get)) P :=
  fun w hw => ends_query.mpr ⟨hw, h w hw⟩

theorem keeps_query {f : Workspace → α} : Keeps I (do return f (← get)) fun _ => True :=
  keeps_get fun _ _ => trivial

theorem keeps_question {question : Workspace → Option α} : Keeps I (ask question) fun _ => True :=
  keeps_ask fun _ _ _ _ => trivial

end Workspace
end Handout
