import Solusek.Lib.Texts

/-!
# Occurrences of a pattern

A text is cut at the leftmost occurrences of a pattern that do not overlap. The pieces are
unique, and the pattern joins them to the text again.
-/

namespace Solusek.Occurrences

variable {α : Type*}

/-- In `a ++ pat ++ rest` the pattern does not start before the end of `a`. -/
def Leftmost (pat a rest : List α) : Prop :=
  ∀ b, b ++ pat <+: a ++ pat ++ rest → a.length ≤ b.length

inductive Cut (pat : List α) : List α → List (List α) → Prop where
  | whole {s : List α} (absent : ¬ pat <:+: s) : Cut pat s [s]
  | piece {a rest : List α} {pieces : List (List α)} (first : Leftmost pat a rest)
      (behind : Cut pat rest pieces) : Cut pat (a ++ pat ++ rest) (a :: pieces)

variable {pat : List α}

theorem Leftmost.tail {c : α} {a rest : List α} (first : Leftmost pat (c :: a) rest) :
    Leftmost pat a rest := by
  intro b start
  have longer := first (c :: b) (by simpa using start)
  simpa using longer

theorem leftmost_unique {a a' rest rest' : List α} (first : Leftmost pat a rest)
    (first' : Leftmost pat a' rest') (same : a ++ pat ++ rest = a' ++ pat ++ rest') :
    a = a' ∧ rest = rest' := by
  have short := first a' (same ▸ List.prefix_append _ _)
  have short' := first' a (same ▸ List.prefix_append _ _)
  rw [List.append_assoc, List.append_assoc] at same
  obtain ⟨front, back⟩ := List.append_inj same (by omega)
  exact ⟨front, List.append_cancel_left back⟩

theorem exists_leftmost {s : List α} (found : pat <:+: s) :
    ∃ a rest, s = a ++ pat ++ rest ∧ Leftmost pat a rest := by
  induction s with
  | nil =>
    rw [List.infix_nil.mp found]
    exact ⟨[], [], rfl, fun _ _ => Nat.zero_le _⟩
  | cons c s ih =>
    by_cases here : pat <+: c :: s
    · obtain ⟨rest, whole⟩ := here
      exact ⟨[], rest, whole.symm, fun _ _ => Nat.zero_le _⟩
    · obtain ⟨a, rest, rfl, first⟩ := ih ((List.infix_cons_iff.mp found).resolve_left here)
      refine ⟨c :: a, rest, rfl, fun b start => ?_⟩
      cases b with
      | nil => exact absurd start here
      | cons d b =>
        have inside := (List.cons_prefix_cons.mp start).2
        exact Nat.succ_le_succ (first b inside)

namespace Cut

theorem intercalate {s : List α} {pieces : List (List α)} (cut : Cut pat s pieces) :
    pat.intercalate pieces = s := by
  induction cut with
  | whole absent => exact List.intercalate_singleton
  | piece first behind ih =>
    cases behind with
    | whole absent => simp [Texts.intercalate_cons]
    | piece first' behind' => rw [List.intercalate_cons_cons, ih, List.append_assoc]

theorem unique {s : List α} {pieces others : List (List α)} (cut : Cut pat s pieces)
    (cut' : Cut pat s others) : pieces = others := by
  induction cut generalizing others with
  | whole absent =>
    cases cut' with
    | whole absent' => rfl
    | piece first' behind' => exact absurd ⟨_, _, rfl⟩ absent
  | @piece a rest pieces first behind ih =>
    generalize whole : a ++ pat ++ rest = s at cut'
    cases cut' with
    | whole absent' => exact absurd ⟨_, _, whole⟩ absent'
    | piece first' behind' =>
      obtain ⟨rfl, rfl⟩ := leftmost_unique first first' whole
      rw [ih behind']

/-- Each piece but the last gives way to the pattern, so a text has only finitely many. -/
theorem exists_pieces (nonempty : pat ≠ []) (s : List α) : ∃ pieces, Cut pat s pieces := by
  induction n : s.length using Nat.strong_induction_on generalizing s with
  | _ n ih =>
    subst n
    by_cases found : pat <:+: s
    · obtain ⟨a, rest, rfl, first⟩ := exists_leftmost found
      have progress := List.length_pos_iff.mpr nonempty
      have shorter : rest.length < (a ++ pat ++ rest).length := by
        simp only [List.length_append]
        omega
      obtain ⟨pieces, behind⟩ := ih rest.length shorter rest rfl
      exact ⟨a :: pieces, .piece first behind⟩
    · exact ⟨[s], .whole found⟩

/-- Around one symbol the pieces are joined as if each occurrence were replaced by itself. -/
theorem intercalate_symbol [DecidableEq α] {c : α} {s : List α} {pieces : List (List α)}
    (cut : Cut [c] s pieces) (rep : List α) :
    rep.intercalate pieces = s.flatMap fun d => if d = c then rep else [d] := by
  have plain {a : List α} (absent : c ∉ a) :
      (a.flatMap fun d => if d = c then rep else [d]) = a := by
    induction a with
    | nil => rfl
    | cons d a ih =>
      obtain ⟨other, behind⟩ := List.ne_and_not_mem_of_not_mem_cons absent
      rw [List.flatMap_cons, if_neg (Ne.symm other), ih behind]
      rfl
  induction cut with
  | whole absent =>
    rw [plain fun member => absent (List.singleton_infix_iff _ _ |>.mpr member)]
    exact List.intercalate_singleton
  | @piece a rest pieces first behind ih =>
    have absent : c ∉ a := by
      intro member
      obtain ⟨b, t, rfl⟩ := List.append_of_mem member
      have longer := first b ⟨t ++ [c] ++ rest, by simp⟩
      simp at longer
    have here : ([c].flatMap fun d => if d = c then rep else [d]) = rep := by simp
    rw [List.flatMap_append, List.flatMap_append, plain absent, here, ← ih]
    cases behind with
    | whole absent' => simp [Texts.intercalate_cons]
    | piece first' behind' => rw [List.intercalate_cons_cons]

end Cut

end Solusek.Occurrences
