import Mathlib

/-!
# Runs of a labelled transition system

A system is a relation `step s a t`: action `a` may lead from state `s` to state `t`.
`Runs` chains steps, and an invariant of one step is an invariant of every run.
-/

namespace Solusek.Transition

variable {σ α : Type*} {step : σ → α → σ → Prop}

/-- `Runs step s as t`: the actions `as`, taken in order, lead from `s` to `t`. -/
inductive Runs (step : σ → α → σ → Prop) (s : σ) : List α → σ → Prop where
  | nil : Runs step s [] s
  | snoc {as : List α} {t u : σ} {a : α} :
      Runs step s as t → step t a u → Runs step s (as ++ [a]) u

/-- The steps of `step` whose state and action meet `cond`. -/
def Guarded (cond : σ → α → Prop) (step : σ → α → σ → Prop) (s : σ) (a : α) (t : σ) : Prop :=
  cond s a ∧ step s a t

/-- What holds at the start and survives every step holds after every run. -/
theorem Runs.invariant {P : σ → Prop} {s t : σ} {as : List α} (run : Runs step s as t)
    (initial : P s) (preserve : ∀ {s a t}, P s → step s a t → P t) : P t := by
  induction run with
  | nil => exact initial
  | snoc _ last ih => exact preserve ih last

theorem Runs.mono {step' : σ → α → σ → Prop} {s t : σ} {as : List α}
    (run : Runs step s as t) (weaker : ∀ {s a t}, step s a t → step' s a t) :
    Runs step' s as t := by
  induction run with
  | nil => exact .nil
  | snoc _ last ih => exact .snoc ih (weaker last)

theorem Runs.trans {s t u : σ} {as bs : List α} (first : Runs step s as t)
    (second : Runs step t bs u) : Runs step s (as ++ bs) u := by
  induction second with
  | nil => simpa using first
  | snoc _ last ih => rw [← List.append_assoc]; exact .snoc ih last

theorem Runs.single {s t : σ} {a : α} (taken : step s a t) : Runs step s [a] t :=
  Runs.snoc .nil taken

theorem Runs.cons {s t u : σ} {a : α} {as : List α} (first : step s a t)
    (rest : Runs step t as u) : Runs step s (a :: as) u :=
  (Runs.single first).trans rest

/-- Where each step of one system is some steps of another, and none for a step that does not show
there, each run of the first is a run of the second. -/
theorem Runs.erased {τ β : Type*} {step' : τ → β → τ → Prop} {erase : β → List α}
    {R : τ → σ → Prop} (simulate : ∀ {s' s b t'}, R s' s → step' s' b t' →
      ∃ t, R t' t ∧ Runs step s (erase b) t)
    {s' t' : τ} {s : σ} {bs : List β} (run : Runs step' s' bs t') (related : R s' s) :
    ∃ t, R t' t ∧ Runs step s (bs.flatMap erase) t := by
  induction run with
  | nil => exact ⟨s, related, .nil⟩
  | snoc _ last ih =>
    obtain ⟨t, before, steps⟩ := ih
    obtain ⟨u, after, more⟩ := simulate before last
    refine ⟨u, after, ?_⟩
    rw [List.flatMap_append, List.flatMap_singleton]
    exact steps.trans more

/-- Where an action and a batch behind it are one batch, the actions one by one are the batch. -/
theorem foldl_batch {next : σ → α → σ} {batch : σ → List α → σ} (empty : ∀ s, batch s [] = s)
    (one : ∀ s a as, batch (next s a) as = batch s (a :: as)) (s : σ) (as : List α) :
    as.foldl next s = batch s as := by
  induction as generalizing s with
  | nil => exact (empty s).symm
  | cons a as ih => rw [List.foldl_cons, ih, one]

/-- The actions are allowed one after another, where `next` is what each leads to. -/
def Follows (allowed : σ → α → Prop) (next : σ → α → σ) : σ → List α → Prop
  | _, [] => True
  | s, a :: as => allowed s a ∧ Follows allowed next (next s a) as

theorem Follows.runs {allowed : σ → α → Prop} {next : σ → α → σ} {s : σ} {as : List α}
    (follows : Follows allowed next s as) :
    Runs (fun s a t => allowed s a ∧ t = next s a) s as (as.foldl next s) := by
  induction as generalizing s with
  | nil => exact .nil
  | cons a as ih => exact Runs.cons ⟨follows.1, rfl⟩ (ih follows.2)

theorem Follows.guarded {cond allowed : σ → α → Prop} {next : σ → α → σ} {s : σ} {as : List α}
    (follows : Follows (fun s a => cond s a ∧ allowed s a) next s as) :
    Runs (Guarded cond fun s a t => allowed s a ∧ t = next s a) s as (as.foldl next s) :=
  follows.runs.mono fun taken => ⟨taken.1.1, taken.1.2, taken.2⟩

end Solusek.Transition
