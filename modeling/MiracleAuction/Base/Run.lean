import Mathlib

/-!
# Computations and finite runs

Computations that may fail; finite runs of a labelled step relation, and the rules that
carry a fact about one step over a whole run.
-/

namespace Except
variable {α β ε : Type} {x : Except ε α} {f : α → Except ε β} {a : α} {b : β}

/-- A computation that succeeds has succeeded in its first part. -/
theorem bind_eq_ok (h : x >>= f = .ok b) : ∃ a, x = .ok a ∧ f a = .ok b := by
  cases x with
  | error => cases h
  | ok a => exact ⟨a, rfl, h⟩

theorem bind_of_ok (h : x = .ok a) (f : α → Except ε β) : x >>= f = f a := by
  rw [h]
  rfl

theorem exists_ok (h : x.isOk = true) : ∃ a, x = .ok a := by
  cases x with
  | error => cases h
  | ok a => exact ⟨a, rfl⟩

end Except

variable {σ α : Type*}

/-- `Run step s as t`: the steps labelled `as`, in this order, lead from `s` to `t`. -/
inductive Run (step : σ → α → σ → Prop) : σ → List α → σ → Prop
  | refl (s : σ) : Run step s [] s
  | cons {s t u : σ} {a : α} {as : List α} (h : step s a t) (hr : Run step t as u) :
      Run step s (a :: as) u

/-- The steps of a function that is total on states and labels. -/
def Does (f : σ → α → σ) (s : σ) (a : α) (t : σ) : Prop := t = f s a

/-- The steps that satisfy a condition on the state before and the label. -/
def Guarded (ok : σ → α → Prop) (step : σ → α → σ → Prop) (s : σ) (a : α)
    (t : σ) : Prop :=
  ok s a ∧ step s a t

namespace Run
variable {step step' : σ → α → σ → Prop} {s t u : σ} {as bs : List α} {a : α}

theorem append (h : Run step s as t) (h' : Run step t bs u) : Run step s (as ++ bs) u := by
  induction h with
  | refl => exact h'
  | cons hs _ ih => exact .cons hs (ih h')

theorem snoc (h : Run step s as t) (h' : step t a u) : Run step s (as ++ [a]) u :=
  h.append (.cons h' (.refl u))

/-- A run over a concatenation passes through a state between its parts. -/
theorem split (h : Run step s (as ++ bs) u) : ∃ t, Run step s as t ∧ Run step t bs u := by
  induction as generalizing s with
  | nil => exact ⟨s, .refl s, h⟩
  | cons a as ih =>
    cases h with
    | cons hs hr =>
      obtain ⟨t, ht, hu⟩ := ih hr
      exact ⟨t, .cons hs ht, hu⟩

/-- What every step preserves, every run preserves. -/
theorem preserves {I : σ → Prop} (hstep : ∀ s a t, step s a t → I s → I t)
    (h : Run step s as t) (hs : I s) : I t := by
  induction h with
  | refl => exact hs
  | cons ha _ ih => exact ih (hstep _ _ _ ha hs)

/-- What every step preserves or ends, holds after a run or was ended by one of its steps. -/
theorem preserves_or_ends {I : σ → Prop} {E : σ → α → σ → Prop}
    (hstep : ∀ s a t, step s a t → I s → I t ∨ E s a t) (h : Run step s as t) (hs : I s) :
    I t ∨ ∃ before a after u u', as = before ++ a :: after ∧ Run step s before u ∧
      step u a u' ∧
      E u a u' ∧ Run step u' after t := by
  induction h with
  | refl => exact .inl hs
  | @cons s t v a as ha hr ih =>
    obtain hI | hE := hstep _ _ _ ha hs
    · obtain hv | ⟨before, b, after, u, u', rfl, hbefore, hb, hE, hafter⟩ := ih hI
      · exact .inl hv
      · exact .inr ⟨a :: before, b, after, u, u', rfl, .cons ha hbefore, hb, hE, hafter⟩
    · exact .inr ⟨[], a, as, s, t, rfl, .refl s, ha, hE, hr⟩

theorem mono (hstep : ∀ s a t, step s a t → step' s a t) (h : Run step s as t) :
    Run step' s as t := by
  induction h with
  | refl s => exact .refl s
  | cons ha _ ih => exact .cons (hstep _ _ _ ha) ih

/-- Labels that meet a condition in every state guard a run. -/
theorem guard {ok : σ → α → Prop} (h : Run step s as t) (hok : ∀ a ∈ as, ∀ s, ok s a) :
    Run (Guarded ok step) s as t := by
  induction h with
  | refl s => exact .refl s
  | cons ha _ ih =>
    exact .cons ⟨hok _ List.mem_cons_self _, ha⟩
      (ih fun a ha => hok a (List.mem_cons_of_mem _ ha))

/-- A transitive comparison of consecutive states compares the ends of a run. -/
theorem compares {R : σ → σ → Prop}
    (hrefl : ∀ s, R s s) (htrans : ∀ s t u, R s t → R t u → R s u)
    (hstep : ∀ s a t, step s a t → R s t) (h : Run step s as t) : R s t := by
  induction h with
  | refl s => exact hrefl s
  | cons ha _ ih => exact htrans _ _ _ (hstep _ _ _ ha) ih

end Run

/-- The run of a function is determined by its labels. -/
theorem run_does_iff {f : σ → α → σ} {s t : σ} {as : List α} :
    Run (Does f) s as t ↔ t = as.foldl f s := by
  constructor
  · intro h
    induction h with
    | refl => rfl
    | cons hs _ ih => rw [List.foldl_cons, ← hs]; exact ih
  · rintro rfl
    induction as generalizing s with
    | nil => exact .refl s
    | cons a as ih => exact .cons rfl ih

/-- The run of a partial function is determined by its labels. -/
theorem run_partial_iff {f : σ → α → Option σ} {s t : σ} {as : List α} :
    Run (fun s a t => f s a = some t) s as t ↔ as.foldlM f s = some t := by
  constructor
  · intro h
    induction h with
    | refl => rfl
    | cons hs _ ih => rw [List.foldlM_cons, hs]; exact ih
  · intro h
    induction as generalizing s with
    | nil =>
      obtain rfl : s = t := by simpa using h
      exact .refl s
    | cons a as ih =>
      rw [List.foldlM_cons] at h
      obtain ⟨u, hu, h⟩ := Option.bind_eq_some_iff.mp h
      exact .cons hu (ih h)

/-- So is a run whose steps are guarded by a decidable condition. -/
theorem run_guarded_of_foldlM {f : σ → α → Option σ} {ok : σ → α → Prop}
    [∀ s a, Decidable (ok s a)] {s t : σ} {as : List α}
    (h : as.foldlM (fun s a => if ok s a then f s a else none) s = some t) :
    Run (Guarded ok fun s a t => f s a = some t) s as t := by
  refine (run_partial_iff.mpr h).mono fun s a t hstep => ?_
  by_cases hok : ok s a
  · exact ⟨hok, by simpa [hok] using hstep⟩
  · simp [hok] at hstep

/-- The steps of a partial function. -/
def StepOf (f : σ → α → Option σ) (s : σ) (a : α) (t : σ) : Prop := f s a = some t

namespace Run
variable {f : σ → α → Option σ} {s : σ} {as : List α}

/-- The state that the labels lead to, where they are possible. -/
def final (f : σ → α → Option σ) (s : σ) (as : List α) : σ := (as.foldlM f s).getD s

theorem to_final (h : (as.foldlM f s).isSome) : Run (StepOf f) s as (final f s as) := by
  obtain ⟨t, ht⟩ := Option.isSome_iff_exists.mp h
  unfold final
  rw [ht]
  exact run_partial_iff.mpr ht

/-- The same run, when each of its steps meets a decidable condition. -/
theorem to_final_guarded {ok : σ → α → Prop} [∀ s a, Decidable (ok s a)]
    (h : (as.foldlM (fun s a => if ok s a then f s a else none) s).isSome) :
    Run (Guarded ok (StepOf f)) s as (final f s as) := by
  obtain ⟨t, ht⟩ := Option.isSome_iff_exists.mp h
  have hrun := run_guarded_of_foldlM ht
  have hfinal : as.foldlM f s = some t :=
    run_partial_iff.mp (hrun.mono fun _ _ _ hstep => hstep.2)
  unfold final
  rw [hfinal]
  exact hrun

/-- Every state that the labels lead through has the property. -/
def Always (f : σ → α → Option σ) (P : σ → Prop) (s : σ) (as : List α) : Prop :=
  ∀ bs cs u, as = bs ++ cs → Run (StepOf f) s bs u → P u

theorem always_cons {P : σ → Prop} {t : σ} {a : α} (h : StepOf f s a t) :
    Always f P s (a :: as) ↔ P s ∧ Always f P t as := by
  constructor
  · intro hall
    refine ⟨hall [] _ s rfl (.refl s), fun bs cs u heq hrun => ?_⟩
    exact hall (a :: bs) cs u (by rw [heq]; rfl) (.cons h hrun)
  · rintro ⟨hs, hall⟩ bs cs u heq hrun
    cases hrun with
    | refl => exact hs
    | @cons _ t' _ b bs hb hrun =>
      obtain ⟨rfl, htail⟩ := List.cons.inj heq
      obtain rfl : t = t' := Option.some.inj (h.symm.trans hb)
      exact hall bs cs u htail hrun

/-- If the steps that meet a condition keep an invariant, a run of such steps has throughout what
the invariant says. -/
theorem always_of_guarded {P I : σ → Prop} {ok : σ → α → Prop} {t : σ}
    (hP : ∀ s, I s → P s) (hstep : ∀ s a t, StepOf f s a t → ok s a → I s → I t)
    (h : Run (Guarded ok (StepOf f)) s as t) (hs : I s) : Always f P s as := by
  induction h with
  | refl s =>
    rintro bs cs u heq hrun
    obtain ⟨rfl, -⟩ := List.append_eq_nil_iff.mp heq.symm
    cases hrun
    exact hP s hs
  | @cons s t u a as ha _ ih =>
    obtain ⟨hok, ha⟩ := ha
    exact (always_cons ha).mpr ⟨hP s hs, ih (hstep s a t ha hok hs)⟩

/-- Where a step keeps a property exactly under a condition, a run keeps it throughout
exactly if each of its steps meets the condition. -/
theorem always_iff_guarded {P I : σ → Prop} {ok : σ → α → Prop} {t : σ}
    (hP : ∀ s, I s → P s) (hstep : ∀ s a t, StepOf f s a t → I s → (P t ↔ ok s a))
    (hinv : ∀ s a t, StepOf f s a t → I s → ok s a → I t) (h : Run (StepOf f) s as t)
    (hs : I s) :
    Always f P s as ↔ Run (Guarded ok (StepOf f)) s as t := by
  induction h with
  | refl s =>
    refine ⟨fun _ => .refl s, fun _ bs cs u heq hrun => ?_⟩
    obtain ⟨rfl, _⟩ := List.append_eq_nil_iff.mp heq.symm
    cases hrun
    exact hP s hs
  | @cons s t u a as ha hr ih =>
    rw [always_cons ha]
    constructor
    · rintro ⟨_, hall⟩
      have hok := (hstep s a t ha hs).mp (hall [] _ t rfl (.refl t))
      exact .cons ⟨hok, ha⟩ ((ih (hinv s a t ha hs hok)).mp hall)
    · intro hrun
      cases hrun with
      | @cons _ t' _ _ _ hguarded hrun =>
        obtain rfl : t = t' := Option.some.inj (ha.symm.trans hguarded.2)
        exact ⟨hP s hs, (ih (hinv s a t ha hs hguarded.1)).mpr hrun⟩

end Run
