import Solusek.Lib.Runs
import Solusek.Model.Lock

/-!
# The flag is given back

An operation that starts with `Lock` clear leaves it clear exactly if none of its calls into
the backend throws. Once it is left set, every later operation of any transaction waits for
ever.
-/

namespace Solusek.Lock

open Transition
open CTransaction

/-- No call of the operation into the backend throws: one for each value, and the last. -/
def Action.Quiet (a : Action) : Prop := ∀ k ≤ a.call.vars.length, a.throws k = false

/-! ### One operation -/

theorem locked_quiet : locked false false = (.returned, false) := rfl

theorem locked_throws : locked true false = (.thrown, true) := rfl

theorem escEach_quiet {throws : Nat → Bool} {k : Nat} {vars : List (Str × Str)}
    (quiet : ∀ j < vars.length, throws (k + j) = false) :
    escEach throws k vars false = (.returned, false) := by
  induction vars generalizing k with
  | nil => rfl
  | cons entry rest ih =>
    have first : throws k = false := quiet 0 (Nat.zero_lt_succ _)
    have later : ∀ j < rest.length, throws (k + 1 + j) = false := by
      intro j below
      have next := quiet (j + 1) (Nat.succ_lt_succ below)
      rwa [show k + (j + 1) = k + 1 + j by omega] at next
    rw [escEach, esc, first, locked_quiet, andThen]
    exact ih later

theorem escEach_throws {throws : Nat → Bool} {k : Nat} {vars : List (Str × Str)}
    (loud : ∃ j < vars.length, throws (k + j) = true) :
    escEach throws k vars false = (.thrown, true) := by
  induction vars generalizing k with
  | nil =>
    obtain ⟨j, below, _⟩ := loud
    exact absurd below (Nat.not_lt_zero j)
  | cons entry rest ih =>
    cases first : throws k with
    | true => rw [escEach, esc, first, locked_throws, andThen]; simp
    | false =>
      rw [escEach, esc, first, locked_quiet, andThen]
      obtain ⟨j, below, thrown⟩ := loud
      cases j with
      | zero => exact absurd (first.symm.trans thrown) Bool.false_ne_true
      | succ j =>
        refine ih ⟨j, Nat.lt_of_succ_lt_succ below, ?_⟩
        rwa [show k + 1 + j = k + (j + 1) by omega]

/-- Every operation escapes the values of one map, none for some, and makes one more call. -/
theorem run_eq (throws : Nat → Bool) (call : Call) (Lock : Bool) :
    call.run throws Lock =
      andThen (escEach throws 0 call.vars Lock) (locked (throws call.vars.length)) := by
  rcases call with ⟨_ | _ | _ | _ | _ | _⟩ | _ | _ <;> rfl

theorem run_set (throws : Nat → Bool) (call : Call) : call.run throws true = (.waiting, true) := by
  rw [run_eq]
  cases call.vars <;> rfl

theorem run_quiet {a : Action} (quiet : a.Quiet) :
    a.call.run a.throws false = (.returned, false) := by
  have escaped : escEach a.throws 0 a.call.vars false = (.returned, false) := by
    apply escEach_quiet
    intro j below
    rw [Nat.zero_add]
    exact quiet j (Nat.le_of_lt below)
  have last := quiet _ (Nat.le_refl _)
  rw [run_eq, escaped, last]
  rfl

theorem run_loud {a : Action} (loud : ¬ a.Quiet) :
    a.call.run a.throws false = (.thrown, true) := by
  rw [run_eq]
  by_cases early : ∃ j < a.call.vars.length, a.throws j = true
  · obtain ⟨j, below, thrown⟩ := early
    rw [escEach_throws ⟨j, below, by rwa [Nat.zero_add]⟩]
    rfl
  · have quiet : ∀ j < a.call.vars.length, a.throws j = false := by
      intro j below
      by_contra thrown
      exact early ⟨j, below, by simpa using thrown⟩
    have last : a.throws a.call.vars.length = true := by
      by_contra silent
      refine loud fun k bound => ?_
      rcases Nat.lt_or_eq_of_le bound with below | rfl
      · exact quiet k below
      · simpa using silent
    rw [escEach_quiet fun j below => by rw [Nat.zero_add]; exact quiet j below, last]
    rfl

/-- An operation ends exactly where it finds the flag clear, and leaves it as it goes. -/
theorem step_iff {Lock Lock' : Bool} {a : Action} :
    Step Lock a Lock' ↔ Lock = false ∧ (Lock' = false ↔ a.Quiet) := by
  cases Lock with
  | true => simp [Step, run_set]
  | false =>
    by_cases quiet : a.Quiet
    · simp only [Step, run_quiet quiet, Prod.mk.injEq, quiet]
      cases Lock' <;> simp
    · simp only [Step, run_loud quiet, Prod.mk.injEq, quiet]
      cases Lock' <;> simp

/-! ### Operations in a row -/

/-- After any operations that came to an end, `Lock` is false exactly if no call of theirs into
the backend threw; and it is where `Lock` is true that the next operation waits for ever. -/
theorem lock_released_iff {as : List Action} {Lock : Bool} (run : Runs Step false as Lock) :
    (Lock = false ↔ ∀ a ∈ as, a.Quiet) ∧
    ∀ a : Action, (a.call.run a.throws Lock).1 = .waiting ↔ Lock = true := by
  constructor
  · induction run with
    | nil => simp
    | snoc _ last ih =>
      obtain ⟨clear, left⟩ := step_iff.mp last
      simp only [List.mem_append, List.mem_singleton]
      rw [left]
      constructor
      · rintro quiet b (earlier | rfl)
        · exact ih.mp clear b earlier
        · exact quiet
      · intro all
        exact all _ (Or.inr rfl)
  · intro a
    cases Lock with
    | true => simp [run_set]
    | false =>
      by_cases quiet : a.Quiet
      · simp [run_quiet quiet]
      · simp [run_loud quiet]

/-- A commit, then an `esc` that throws. -/
def escThrows : List Action := [⟨.commit, fun _ => false⟩, ⟨.esc, fun _ => true⟩]

theorem escThrows_runs : Runs Step false escThrows true :=
  .snoc (.single ⟨.returned, rfl, by decide⟩) ⟨.thrown, rfl, by decide⟩

theorem lock_released_sample : ¬ ∀ a ∈ escThrows, a.Quiet := by
  intro quiet
  exact Bool.noConfusion ((lock_released_iff escThrows_runs).1.mpr quiet)

theorem lock_kept :
    ¬ ∀ (as : List Action) (Lock : Bool), Runs Step false as Lock → Lock = false := by
  intro claim
  exact Bool.noConfusion (claim _ _ escThrows_runs)

end Solusek.Lock
