import Solusek.Lib.Texts

/-!
# Paths below a directory

A path is a text cut into segments at a separator. Walking it segment by segment goes one
directory up at every `up`, stays at the segments in `stay` and goes down at all others.
-/

namespace Solusek.Paths

open Texts

variable {α : Type*} [DecidableEq α]

/-- The depth reached below the start, or `none` once the walk leaves it upwards. -/
def walk (up : List α) (stay : List (List α)) : Nat → List (List α) → Option Nat
  | depth, [] => some depth
  | depth, s :: rest =>
    if s = up then
      match depth with
      | 0 => none
      | depth + 1 => walk up stay depth rest
    else if s ∈ stay then walk up stay depth rest
    else walk up stay (depth + 1) rest

theorem walk_isSome {up : List α} {stay segments : List (List α)} (below : up ∉ segments)
    (depth : Nat) : (walk up stay depth segments).isSome := by
  induction segments generalizing depth with
  | nil => rfl
  | cons s rest ih =>
    have other : s ≠ up := fun same => below (by simp [same])
    have later : up ∉ rest := fun member => below (List.mem_cons_of_mem _ member)
    unfold walk
    rw [if_neg other]
    split
    · exact ih later depth
    · exact ih later (depth + 1)

theorem infix_of_mem_splitOn {sep : α} {s p : List α} (member : s ∈ p.splitOn sep) : s <:+: p := by
  have inside := infix_of_mem_intercalate [sep] member
  rwa [List.intercalate_splitOn] at inside

theorem not_mem_splitOn {up p : List α} (free : ¬ up <:+: p) (sep : α) : up ∉ p.splitOn sep :=
  fun member => free (infix_of_mem_splitOn member)

end Solusek.Paths
