/-
  Handout.Proofs.Action — what holds after an action, whether it answers or fails.

  `x.Ends s Q E` says of the action `x` begun in the state `s` that `Q` holds of its answer
  and the state it leaves, or `E` of its failure and the state it leaves. It is taken
  apart along the action, from its first step on (`ends_bind`); a failure that is caught
  goes on in the state that it left (`ends_tryCatch`).

  `x.Keeps I P` says that `x` begun in any state of which `I` holds ends in one, failed or
  not, and that `P` holds of its answer. What is made of such actions is one.
-/

import Handout.Action

namespace Handout.Action

variable {σ α β : Type}

/-- What holds of the answer and the state after it, or of the failure and the state it leaves. -/
def Ends (x : Action σ α) (s : σ) (Q : α → σ → Prop) (E : Failure → σ → Prop) : Prop :=
  match x s with
  | .ok a t => Q a t
  | .error f t => E f t

theorem outcome_eq_ok {x : Action σ α} {s t : σ} {a : α} : x.outcome s = (.ok a, t) ↔ x s = .ok a t := by
  unfold outcome
  cases x s <;> simp

theorem outcome_eq_error {x : Action σ α} {s t : σ} {f : Failure} : x.outcome s = (.error f, t) ↔ x s = .error f t := by
  unfold outcome
  cases x s <;> simp

/-- The failure, if any, and the state after it. Unlike an outcome it can always be compared. -/
def result (x : Action σ α) (s : σ) : Option Failure × σ :=
  match x s with
  | .ok _ t => (none, t)
  | .error f t => (some f, t)

theorem exists_outcome_of_result {x : Action σ α} {s t : σ} (h : x.result s = (none, t)) :
    ∃ a, x.outcome s = (.ok a, t) := by
  unfold result at h
  unfold outcome
  cases hx : x s <;> simp_all

theorem outcome_of_result_none {x : Action σ Unit} {s t : σ} (h : x.result s = (none, t)) : x.outcome s = (.ok (), t) :=
  (exists_outcome_of_result h).choose_spec

theorem outcome_of_result_some {x : Action σ α} {s t : σ} {f : Failure} (h : x.result s = (some f, t)) :
    x.outcome s = (.error f, t) := by
  unfold result at h
  unfold outcome
  cases hx : x s <;> simp_all

theorem outcome_bind {x : Action σ α} {g : α → Action σ β} {s t : σ} {a : α} (h : x.outcome s = (.ok a, t)) :
    (x >>= g).outcome s = (g a).outcome t := by
  rw [outcome_eq_ok] at h
  simp only [outcome, bind, EStateM.bind, h]

theorem outcome_bind_error {x : Action σ α} {g : α → Action σ β} {s t : σ} {f : Failure}
    (h : x.outcome s = (.error f, t)) : (x >>= g).outcome s = (.error f, t) := by
  rw [outcome_eq_error] at h
  simp only [outcome, bind, EStateM.bind, h]

theorem outcome_tryCatch {x : Action σ α} {g : Failure → Action σ α} {s t : σ} {a : α} (h : x.outcome s = (.ok a, t)) :
    (tryCatch x g : Action σ α).outcome s = (.ok a, t) := by
  rw [outcome_eq_ok] at h ⊢
  show EStateM.tryCatch x g s = _
  delta EStateM.tryCatch
  rw [h]

theorem outcome_answered {r : Except Failure α} {a : α} (h : r = .ok a) (s : σ) :
    (answered r : Action σ α).outcome s = (.ok a, s) := by
  rw [h]
  rfl

theorem outcome_get (s : σ) : (get : Action σ σ).outcome s = (.ok s, s) := rfl

/-- `y` answers what `x` answers, and leaves what it leaves, wherever `x` answers. -/
def AnswersAs (y x : Action σ α) : Prop := ∀ s a t, x.outcome s = (.ok a, t) → y.outcome s = (.ok a, t)

namespace AnswersAs

variable {x y : Action σ α} {f g : α → Action σ β}

theorem refl (x : Action σ α) : AnswersAs x x := fun _ _ _ h => h

theorem throw (f : Failure) : AnswersAs y (MonadExcept.throw f) := fun _ _ _ h => by cases outcome_eq_ok.mp h

theorem bind (hx : AnswersAs y x) (hg : ∀ a, AnswersAs (g a) (f a)) : AnswersAs (y >>= g) (x >>= f) := by
  intro s b t h
  rw [outcome_eq_ok] at h
  cases hs : x s with
  | error e s' =>
    simp only [Bind.bind, EStateM.bind, hs] at h
    cases h
  | ok a s' =>
    simp only [Bind.bind, EStateM.bind, hs] at h
    rw [outcome_bind (hx s a s' (outcome_eq_ok.mpr hs))]
    exact hg a s' b t (outcome_eq_ok.mpr h)

theorem forIn {γ : Type} {f g : γ → Action σ Unit} (h : ∀ c, AnswersAs (g c) (f c)) (xs : List γ) :
    AnswersAs (ForIn.forIn xs PUnit.unit fun c _ => do g c; Pure.pure (ForInStep.yield PUnit.unit))
      (ForIn.forIn xs PUnit.unit fun c _ => do f c; Pure.pure (ForInStep.yield PUnit.unit)) := by
  induction xs with
  | nil => exact refl _
  | cons c xs ih =>
    rw [List.forIn_cons, List.forIn_cons, bind_assoc, bind_assoc]
    refine (h c).bind fun _ => ?_
    rw [pure_bind, pure_bind]
    exact ih

end AnswersAs

variable {x : Action σ α} {s t : σ} {Q Q' : α → σ → Prop} {E E' : Failure → σ → Prop}

theorem Ends.of_ok (h : x.Ends s Q E) {a : α} (hx : x.outcome s = (.ok a, t)) : Q a t := by
  rw [Ends, outcome_eq_ok.mp hx] at h
  exact h

theorem Ends.of_error (h : x.Ends s Q E) {f : Failure} (hx : x.outcome s = (.error f, t)) : E f t := by
  rw [Ends, outcome_eq_error.mp hx] at h
  exact h

theorem ends_intro (hok : ∀ a t, x.outcome s = (.ok a, t) → Q a t)
    (herror : ∀ f t, x.outcome s = (.error f, t) → E f t) : x.Ends s Q E := by
  simp only [outcome_eq_ok, outcome_eq_error] at hok herror
  unfold Ends
  cases hx : x s with
  | ok a t => exact hok a t hx
  | error f t => exact herror f t hx

theorem Ends.mono (h : x.Ends s Q E) (hQ : ∀ a t, Q a t → Q' a t) (hE : ∀ f t, E f t → E' f t) : x.Ends s Q' E' :=
  ends_intro (fun _ _ hx => hQ _ _ (h.of_ok hx)) fun _ _ hx => hE _ _ (h.of_error hx)

/-- What never answers need not go on. -/
theorem Ends.of_never (h : x.Ends s (fun _ _ => False) E) (hE : ∀ f t, E f t → E' f t) : x.Ends s Q E' :=
  h.mono (fun _ _ hnever => hnever.elim) hE

/-- What never fails answers. -/
theorem Ends.exists_outcome (h : x.Ends s Q fun _ _ => False) : ∃ a t, x.outcome s = (.ok a, t) ∧ Q a t := by
  unfold Ends at h
  unfold outcome
  cases hx : x s with
  | ok a t =>
    rw [hx] at h
    exact ⟨a, t, rfl, h⟩
  | error f t =>
    rw [hx] at h
    exact h.elim

theorem ends_true (x : Action σ α) (s : σ) : x.Ends s (fun _ _ => True) fun _ _ => True :=
  ends_intro (fun _ _ _ => trivial) fun _ _ _ => trivial

/-! ## Steps -/

theorem ends_pure {a : α} : Ends (pure a) s Q E ↔ Q a s := Iff.rfl

theorem ends_throw {f : Failure} : Ends (throw f : Action σ α) s Q E ↔ E f s := Iff.rfl

theorem ends_bind {g : α → Action σ β} {Q : β → σ → Prop} :
    (x >>= g).Ends s Q E ↔ x.Ends s (fun a t => (g a).Ends t Q E) E := by
  simp only [Ends, bind, EStateM.bind]
  cases x s <;> rfl

theorem ends_tryCatch {g : Failure → Action σ α} :
    Ends (tryCatch x g) s Q E ↔ x.Ends s Q fun f t => (g f).Ends t Q E := by
  have hrun : (tryCatch x g : Action σ α) s = EStateM.tryCatch x g s := rfl
  rw [Ends, Ends, hrun]
  delta EStateM.tryCatch
  cases x s <;> rfl

theorem ends_answered {r : Except Failure α} :
    Ends (answered r) s Q E ↔ (∀ a, r = .ok a → Q a s) ∧ ∀ f, r = .error f → E f s := by
  cases r with
  | ok a => simp [answered, ends_pure]
  | error f => simp [answered, ends_throw]

theorem ends_get {Q : σ → σ → Prop} : Ends (get : Action σ σ) s Q E ↔ Q s s := Iff.rfl

theorem ends_set {u : σ} {Q : PUnit → σ → Prop} : Ends (set u : Action σ PUnit) s Q E ↔ Q ⟨⟩ u := Iff.rfl

theorem ends_modify {g : σ → σ} {Q : PUnit → σ → Prop} : Ends (modify g : Action σ PUnit) s Q E ↔ Q ⟨⟩ (g s) := Iff.rfl

-- a goal about an action is taken apart by its steps, and not by running it
attribute [irreducible] Ends

/-! ## What is kept -/

/-- What holds of the state holds of it afterwards, failed or not; `P` holds of the answer. -/
def Keeps (I : σ → Prop) (x : Action σ α) (P : α → Prop) : Prop :=
  ∀ s, I s → x.Ends s (fun a t => I t ∧ P a) fun _ t => I t

namespace Keeps

variable {I : σ → Prop} {P P' : α → Prop} {R : β → Prop}

theorem mono (h : Keeps I x P) (hP : ∀ a, P a → P' a) : Keeps I x P' := fun s hs =>
  (h s hs).mono (fun a _ ha => ⟨ha.1, hP a ha.2⟩) fun _ _ hf => hf

theorem pure {a : α} (h : P a) : Keeps I (Pure.pure a) P := fun _ hs => ends_pure.mpr ⟨hs, h⟩

theorem throw (f : Failure) : Keeps I (MonadExcept.throw f : Action σ α) P := fun _ hs => ends_throw.mpr hs

theorem bind {g : α → Action σ β} (hx : Keeps I x P) (hg : ∀ a, P a → Keeps I (g a) R) : Keeps I (x >>= g) R :=
  fun s hs => ends_bind.mpr ((hx s hs).mono (fun a t ha => hg a ha.2 t ha.1) fun _ _ hf => hf)

theorem tryCatch {g : Failure → Action σ α} (hx : Keeps I x P) (hg : ∀ f, Keeps I (g f) P) :
    Keeps I (MonadExcept.tryCatch x g) P :=
  fun s hs => ends_tryCatch.mpr ((hx s hs).mono (fun _ _ ha => ha) fun f t hf => hg f t hf)

theorem answered {r : Except Failure α} (h : ∀ a, r = .ok a → P a) : Keeps I (Handout.answered r) P :=
  fun _ hs => ends_answered.mpr ⟨fun a ha => ⟨hs, h a ha⟩, fun _ _ => hs⟩

theorem mapM {γ : Type} {f : γ → Action σ α} (xs : List γ) (h : ∀ c ∈ xs, Keeps I (f c) P) :
    Keeps I (xs.mapM f) fun as => ∀ a ∈ as, P a := by
  induction xs with
  | nil =>
    rw [List.mapM_nil]
    exact pure (by simp)
  | cons c xs ih =>
    rw [List.mapM_cons]
    refine (h c (List.mem_cons_self ..)).bind fun a ha => ?_
    refine (ih fun d hd => h d (List.mem_cons_of_mem _ hd)).bind fun as has => ?_
    exact pure (List.forall_mem_cons.mpr ⟨ha, has⟩)

theorem filterM {f : α → Action σ Bool} (xs : List α) (h : ∀ c, Keeps I (f c) fun _ => True) (hxs : ∀ c ∈ xs, P c) :
    Keeps I (xs.filterM f) fun as => ∀ a ∈ as, P a := by
  have hkept : ∀ xs acc : List α, (∀ c ∈ xs, P c) → (∀ c ∈ acc, P c) →
      Keeps I (xs.filterAuxM f acc) fun as => ∀ a ∈ as, P a := by
    intro xs
    induction xs with
    | nil => exact fun acc _ hacc => pure hacc
    | cons c xs ih =>
      intro acc hxs hacc
      rw [List.forall_mem_cons] at hxs
      refine (h c).bind fun b _ => ih _ hxs.2 ?_
      cases b with
      | false => exact hacc
      | true => exact List.forall_mem_cons.mpr ⟨hxs.1, hacc⟩
  exact (hkept xs [] hxs (by simp)).bind fun as has => pure (by simpa using has)

/-- A loop over a list, one step after the other. -/
theorem forIn {γ : Type} {f : γ → Action σ Unit} (xs : List γ) (h : ∀ c ∈ xs, Keeps I (f c) fun _ => True) :
    Keeps I (ForIn.forIn xs PUnit.unit fun c _ => do f c; Pure.pure (ForInStep.yield PUnit.unit)) fun _ => True := by
  induction xs with
  | nil => exact pure trivial
  | cons c xs ih =>
    rw [List.forIn_cons, bind_assoc]
    refine (h c (List.mem_cons_self ..)).bind fun _ _ => ?_
    rw [pure_bind]
    exact ih fun d hd => h d (List.mem_cons_of_mem _ hd)

end Keeps
end Handout.Action
