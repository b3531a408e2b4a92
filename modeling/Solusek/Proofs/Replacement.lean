import Solusek.Lib.Occurrences
import Solusek.Proofs.Strings

/-!
# Replacing every occurrence

`replaceAll` cuts the source at the leftmost occurrences of a pattern and joins the pieces
with the replacement. With an empty pattern it stays at the start for ever.
-/

namespace Solusek

open Occurrences

theorem find_leftmost {pat a rest : Str} (first : Leftmost pat a rest) :
    find pat (a ++ pat ++ rest) = some a.length := by
  induction a with
  | nil =>
    rw [List.nil_append]
    have start : pat <+: pat ++ rest := List.prefix_append _ _
    cases whole : pat ++ rest with
    | nil => simp [find, (List.append_eq_nil_iff.mp whole).1]
    | cons c s =>
      rw [whole] at start
      rw [find, if_pos (List.isPrefixOf_iff_prefix.mpr start)]
      rfl
  | cons c a ih =>
    have later : ¬ pat.isPrefixOf (c :: (a ++ pat ++ rest)) = true := by
      intro starts
      have longer := first [] (List.isPrefixOf_iff_prefix.mp starts)
      simp at longer
    rw [List.cons_append, List.cons_append, find, if_neg later, ih first.tail]
    rfl

theorem findFrom_behind (pat done rest : Str) :
    findFrom pat (done ++ rest) done.length = (find pat rest).map (· + done.length) := by
  simp [findFrom]

/-! ### The loop -/

/-- `done` is the part of the source in front of `lastPos`. -/
theorem replaceLoop_cut {pat rest : Str} {pieces : List Str} (nonempty : pat ≠ [])
    (cut : Cut pat rest pieces) (rep done newString : Str) {fuel : Nat}
    (enough : rest.length < fuel) :
    replaceLoop (done ++ rest) pat rep fuel done.length newString =
      some (.ok (newString ++ rep.intercalate pieces)) := by
  induction cut generalizing done newString fuel with
  | @whole rest absent =>
    obtain ⟨fuel, rfl⟩ := Nat.exists_eq_add_of_lt enough
    have tail : substr (done ++ rest) done.length = .ok rest := by simp [substr]
    rw [replaceLoop, findFrom_behind, find_eq_none absent]
    simp only [Option.map_none, tail, List.intercalate_singleton]
    rfl
  | @piece a rest pieces first behind ih =>
    obtain ⟨fuel, rfl⟩ := Nat.exists_eq_add_of_lt enough
    have piece : substr (done ++ (a ++ pat ++ rest)) done.length (some a.length) = .ok a := by
      simp [substr]
    have progress := List.length_pos_iff.mpr nonempty
    rw [replaceLoop, findFrom_behind, find_leftmost first]
    simp only [Option.map_some, Nat.add_sub_cancel, piece]
    have moved : done ++ (a ++ pat ++ rest) = (done ++ a ++ pat) ++ rest := by simp
    have there : a.length + done.length + pat.length = (done ++ a ++ pat).length := by
      simp only [List.length_append]
      omega
    rw [moved, there, ih (done ++ a ++ pat) (newString ++ a ++ rep)]
    · cases behind with
      | whole absent => simp [Texts.intercalate_cons]
      | piece first' behind' => simp [List.intercalate_cons_cons]
    · simp only [List.length_append]
      omega

theorem replaceAll_cut {source pat : Str} {pieces : List Str} (nonempty : pat ≠ [])
    (cut : Cut pat source pieces) (rep : Str) :
    replaceAll source pat rep = some (.ok (rep.intercalate pieces)) :=
  replaceLoop_cut nonempty cut rep [] [] (Nat.lt_succ_self _)

/-- The pieces depend on the source and the pattern alone, so what is put in is never
searched. -/
theorem replaceAll_pieces (source «from» : Str) (nonempty : «from» ≠ []) :
    ∃ pieces, Cut «from» source pieces ∧ (∀ others, Cut «from» source others → others = pieces) ∧
      «from».intercalate pieces = source ∧
      ∀ «to», replaceAll source «from» «to» = some (.ok («to».intercalate pieces)) := by
  obtain ⟨pieces, cut⟩ := Cut.exists_pieces nonempty source
  refine ⟨pieces, cut, fun others cut' => cut'.unique cut, cut.intercalate, ?_⟩
  exact replaceAll_cut nonempty cut

/-- `aa` is cut out of `aaa` once, and the replacement may contain it. -/
theorem replaceAll_pieces_overlap :
    "aa".toList ≠ [] ∧
      ∃ pieces, Cut "aa".toList "aaa".toList pieces ∧
        (∀ others, Cut "aa".toList "aaa".toList others → others = pieces) ∧
        "aa".toList.intercalate pieces = "aaa".toList ∧
        ∀ «to», replaceAll "aaa".toList "aa".toList «to» = some (.ok («to».intercalate pieces)) :=
  ⟨by decide, replaceAll_pieces "aaa".toList "aa".toList (by decide)⟩

/-! ### The empty pattern -/

theorem find_empty (s : Str) : find [] s = some 0 := by
  cases s <;> rfl

theorem replaceLoop_stuck (source rep : Str) (fuel : Nat) (newString : Str) :
    replaceLoop source [] rep fuel 0 newString = none := by
  induction fuel generalizing newString with
  | zero => rfl
  | succ fuel ih =>
    have here : findFrom [] source 0 = some 0 := by simp [findFrom, find_empty]
    have piece : substr source 0 (some 0) = .ok [] := by simp [substr]
    rw [replaceLoop, here]
    simp only [Nat.sub_zero, piece, List.length_nil, Nat.add_zero]
    exact ih _

theorem replaceLoop_ends_iff (source «from» «to» : Str) :
    (∃ fuel result, replaceLoop source «from» «to» fuel 0 [] = some result) ↔ «from» ≠ [] := by
  constructor
  · rintro ⟨fuel, result, ended⟩ rfl
    rw [replaceLoop_stuck] at ended
    cases ended
  · intro nonempty
    obtain ⟨pieces, cut⟩ := Cut.exists_pieces nonempty source
    exact ⟨_, _, replaceAll_cut nonempty cut «to»⟩

theorem replaceLoop_forever :
    ¬ ∀ source «from» «to» : Str,
      ∃ fuel result, replaceLoop source «from» «to» fuel 0 [] = some result := by
  intro claim
  obtain ⟨fuel, result, ended⟩ := claim "abc".toList [] "x".toList
  rw [replaceLoop_stuck] at ended
  cases ended

end Solusek
