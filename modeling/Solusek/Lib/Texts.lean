import Mathlib

/-!
# Cutting and joining texts

Texts are lists of symbols: cut at the first occurrence of a symbol, joined with a separator,
and searched for a pattern.
-/

namespace Solusek.Texts

variable {α : Type*}

/-! ### Cutting -/

section

variable [DecidableEq α]

theorem takeWhile_ne {c : α} {p : List α} (absent : c ∉ p) (rest : List α) :
    (p ++ c :: rest).takeWhile (· ≠ c) = p := by
  rw [List.takeWhile_append_of_pos]
  · simp
  · intro a member
    simpa using fun same : a = c => absent (same ▸ member)

theorem dropWhile_ne {c : α} {p : List α} (absent : c ∉ p) (rest : List α) :
    (p ++ c :: rest).dropWhile (· ≠ c) = c :: rest := by
  rw [List.dropWhile_append_of_pos]
  · simp
  · intro a member
    simpa using fun same : a = c => absent (same ▸ member)

theorem takeWhile_ne_self {c : α} {p : List α} (absent : c ∉ p) : p.takeWhile (· ≠ c) = p := by
  apply List.takeWhile_eq_self_iff.mpr
  intro a member
  simpa using fun same : a = c => absent (same ▸ member)

theorem dropWhile_ne_nil {c : α} {p : List α} (absent : c ∉ p) : p.dropWhile (· ≠ c) = [] := by
  apply List.dropWhile_eq_nil_iff.mpr
  intro a member
  simpa using fun same : a = c => absent (same ▸ member)

theorem not_mem_of_mem_splitOn {sep : α} {s p : List α} (member : s ∈ p.splitOn sep) : sep ∉ s := by
  induction p generalizing s with
  | nil =>
    rw [List.splitOn_nil, List.mem_singleton] at member
    rw [member]
    exact List.not_mem_nil
  | cons c p ih =>
    rw [List.splitOn_cons_eq_if_modifyHead] at member
    split at member <;> rename_i here
    · rcases List.mem_cons.mp member with rfl | later
      · exact List.not_mem_nil
      · exact ih later
    · cases pieces : p.splitOn sep with
      | nil => exact absurd pieces (List.splitOn_ne_nil _ _)
      | cons t pieces' =>
        rw [pieces, List.modifyHead_cons] at member
        rw [pieces] at ih
        rcases List.mem_cons.mp member with rfl | later
        · rw [List.mem_cons, not_or]
          exact ⟨fun same => here (by simp [same]), ih List.mem_cons_self⟩
        · exact ih (List.mem_cons_of_mem _ later)

theorem splitOn_ended (sep : α) (ls : List (List α)) :
    (ls.flatMap fun l => l ++ [sep]).splitOn sep = ls.flatMap (·.splitOn sep) ++ [[]] := by
  induction ls with
  | nil => rfl
  | cons l ls ih =>
    rw [List.flatMap_cons, List.append_assoc, List.singleton_append,
      List.splitOn_append_cons_self, ih, List.flatMap_cons, List.append_assoc]

theorem length_splitOn (sep : α) (p : List α) : (p.splitOn sep).length = p.count sep + 1 := by
  induction p with
  | nil => rfl
  | cons c p ih =>
    rw [List.splitOn_cons_eq_if_modifyHead]
    split <;> rename_i here
    · rw [List.length_cons, ih, List.count_cons, if_pos (by simpa using here)]
    · rw [List.length_modifyHead, ih, List.count_cons, if_neg (by simpa using here)]

end

/-! ### Stripping -/

theorem dropWhile_behind {p : α → Bool} {before s : List α} (all : ∀ c ∈ before, p c = true)
    (start : ∀ c ∈ s.head?, p c = false) : (before ++ s).dropWhile p = s := by
  rw [List.dropWhile_append_of_pos all]
  cases s with
  | nil => rfl
  | cons c s => rw [List.dropWhile_cons, if_neg (by simp [start c rfl])]

/-- Stripping both ends takes away exactly what is around a text that needs no stripping. -/
theorem strip_padded {p : α → Bool} {before s after : List α} (left : ∀ c ∈ before, p c = true)
    (start : ∀ c ∈ s.head?, p c = false) (last : ∀ c ∈ s.getLast?, p c = false)
    (right : ∀ c ∈ after, p c = true) :
    (((before ++ s ++ after).dropWhile p).reverse.dropWhile p).reverse = s := by
  have ends : ((s ++ after).reverse.dropWhile p).reverse = s := by
    rw [List.reverse_append, dropWhile_behind, List.reverse_reverse]
    · exact fun c member => right c (List.mem_reverse.mp member)
    · intro c member
      rw [List.head?_reverse] at member
      exact last c member
  rw [List.append_assoc, List.dropWhile_append_of_pos left]
  cases s with
  | nil =>
    have all : after.dropWhile p = [] := List.dropWhile_eq_nil_iff.mpr right
    simp [all]
  | cons c s =>
    rw [List.cons_append, List.dropWhile_cons, if_neg (by simp [start c rfl])]
    exact ends

theorem mem_dropWhile {p : α → Bool} {c : α} (solid : p c = false) {s : List α} :
    c ∈ s.dropWhile p ↔ c ∈ s := by
  refine ⟨fun member => (List.dropWhile_suffix p).subset member, fun member => ?_⟩
  rw [← List.takeWhile_append_dropWhile (p := p) (l := s)] at member
  rcases List.mem_append.mp member with dropped | left
  · rw [List.mem_takeWhile_imp dropped] at solid
    cases solid
  · exact left

theorem infix_dropWhile {p : α → Bool} {pat s : List α} (solid : ∀ c ∈ pat, p c = false)
    (found : pat <:+: s) : pat <:+: s.dropWhile p := by
  induction s with
  | nil => exact found
  | cons c s ih =>
    rw [List.dropWhile_cons]
    split <;> rename_i dropped
    · rcases List.infix_cons_iff.mp found with here | later
      · cases pat with
        | nil => exact List.nil_infix
        | cons d pat =>
          rw [(List.cons_prefix_cons.mp here).1] at solid
          rw [solid c List.mem_cons_self] at dropped
          cases dropped
      · exact ih later
    · exact found

/-! ### Joining -/

theorem intercalate_cons (sep x : List α) (xs : List (List α)) :
    sep.intercalate (x :: xs) = x ++ xs.flatMap (sep ++ ·) := by
  induction xs generalizing x with
  | nil => simp
  | cons y ys ih => simp [List.intercalate_cons_cons, ih]

theorem mem_intercalate {c : α} {sep : List α} {xs : List (List α)}
    (member : c ∈ sep.intercalate xs) : c ∈ sep ∨ ∃ x ∈ xs, c ∈ x := by
  cases xs with
  | nil => exact absurd member (by simp [List.intercalate_nil])
  | cons x xs =>
    rw [intercalate_cons] at member
    rcases List.mem_append.mp member with first | later
    · exact Or.inr ⟨x, List.mem_cons_self, first⟩
    · obtain ⟨y, inside, piece⟩ := List.mem_flatMap.mp later
      rcases List.mem_append.mp piece with gap | name
      · exact Or.inl gap
      · exact Or.inr ⟨y, List.mem_cons_of_mem _ inside, name⟩

theorem infix_of_mem_intercalate (sep : List α) {s : List α} {xs : List (List α)}
    (member : s ∈ xs) : s <:+: sep.intercalate xs := by
  induction xs with
  | nil => exact absurd member List.not_mem_nil
  | cons x xs ih =>
    cases xs with
    | nil =>
      have same : s = x := by simpa using member
      simp [same, List.intercalate_singleton]
    | cons y xs =>
      rw [List.intercalate_cons_cons]
      rcases List.mem_cons.mp member with rfl | later
      · exact ⟨[], sep ++ sep.intercalate (y :: xs), by simp⟩
      · obtain ⟨before, after, whole⟩ := ih later
        exact ⟨x ++ sep ++ before, after, by simp [← whole]⟩

/-! ### Patterns -/

theorem infix_of_append {c : α} {pat a b : List α} (absent : c ∉ a)
    (found : c :: pat <:+: a ++ b) : c :: pat <:+: b := by
  induction a with
  | nil => exact found
  | cons d a ih =>
    have other : c ≠ d := fun same => absent (by simp [same])
    rcases List.infix_cons_iff.mp found with here | later
    · exact absurd (List.cons_prefix_cons.mp here).1 other
    · exact ih (fun member => absent (List.mem_cons_of_mem _ member)) later

theorem infix_of_append_cons {c : α} {pat a b : List α} (absent : c ∉ pat)
    (found : pat <:+: a ++ c :: b) : pat <:+: a ∨ pat <:+: b := by
  obtain ⟨before, after, whole⟩ := found
  rw [List.append_assoc] at whole
  rcases List.append_eq_append_iff.mp whole with ⟨gap, split, tail⟩ | ⟨gap, split, tail⟩
  · -- The pattern starts in `a`, and has to end there.
    rcases List.append_eq_append_iff.mp tail with ⟨rest, inner, _⟩ | ⟨rest, inner, ends⟩
    · exact Or.inl ⟨before, rest, by simp [split, inner]⟩
    · cases rest with
      | nil => exact Or.inl ⟨before, [], by simp [split, inner]⟩
      | cons d rest =>
        have same : c = d := (List.cons.inj ends).1
        exact absurd (by simp [inner, same]) absent
  · cases gap with
    | nil =>
      cases pat with
      | nil => exact Or.inl (List.nil_infix)
      | cons d pat =>
        have same : c = d := (List.cons.inj tail).1
        exact absurd (by simp [same]) absent
    | cons d gap => exact Or.inr ⟨gap, after, by simpa using (List.cons.inj tail).2.symm⟩

/-! ### Cut texts -/

theorem prefix_append_cases {rx a b : List α} (cut : rx <+: a ++ b) :
    (rx <+: a ∧ rx.length < a.length) ∨ ∃ rest, rx = a ++ rest ∧ rest <+: b := by
  rcases Nat.lt_or_ge rx.length a.length with short | long
  · exact Or.inl ⟨List.prefix_of_prefix_length_le cut (List.prefix_append a b) short.le, short⟩
  · obtain ⟨rest, rfl⟩ := List.prefix_of_prefix_length_le (List.prefix_append a b) cut long
    exact Or.inr ⟨rest, rfl, (List.prefix_append_right_inj a).mp cut⟩

theorem prefix_append_cons {c : α} {a b x y : List α} (left : c ∉ a) (right : c ∉ b) :
    a ++ c :: x <+: b ++ c :: y ↔ a = b ∧ x <+: y := by
  constructor
  · rintro ⟨rest, whole⟩
    classical
    rw [List.append_assoc, List.cons_append] at whole
    have heads := congrArg (List.takeWhile (· ≠ c)) whole
    rw [takeWhile_ne left, takeWhile_ne right] at heads
    rw [heads] at whole
    exact ⟨heads, rest, (List.cons.inj (List.append_cancel_left whole)).2⟩
  · rintro ⟨rfl, rest, rfl⟩
    exact ⟨rest, by simp⟩

/-! ### One symbol over and over -/

theorem not_mem_replicate {c d : α} (other : d ≠ c) (n : Nat) : d ∉ List.replicate n c :=
  fun member => other (List.eq_of_mem_replicate member)

theorem ends_replicate {P : α → Prop} {c : α} (holds : P c) (n : Nat) :
    (∀ d ∈ (List.replicate n c).head?, P d) ∧ ∀ d ∈ (List.replicate n c).getLast?, P d := by
  constructor
  · intro d first
    rw [List.eq_of_mem_replicate (List.mem_of_head? first)]
    exact holds
  · intro d last
    rw [List.eq_of_mem_replicate (List.mem_of_getLast? last)]
    exact holds

/-! ### Searching -/

theorem find?_stronger {P Q : α → Bool} {l : List α} {a : α} (found : l.find? P = some a)
    (passes : Q a = true) (stronger : ∀ b, Q b = true → P b = true) : l.find? Q = some a := by
  obtain ⟨_, before, after, split, none⟩ := List.find?_eq_some_iff_append.mp found
  refine List.find?_eq_some_iff_append.mpr ⟨passes, before, after, split, fun b member => ?_⟩
  have absent := none b member
  cases held : Q b with
  | false => rfl
  | true =>
    rw [stronger b held] at absent
    cases absent

theorem find?_reverse_snoc (P : α → Bool) (l : List α) (a : α) :
    (l ++ [a]).reverse.find? P = if P a then some a else l.reverse.find? P := by
  rw [List.reverse_append, List.reverse_singleton, List.singleton_append, List.find?_cons]
  cases P a <;> rfl

theorem takeWhile_weaker {p q : α → Bool} (weaker : ∀ a, p a = true → q a = true) (l : List α) :
    l.takeWhile q = l.takeWhile p ++ (l.dropWhile p).takeWhile q := by
  induction l with
  | nil => rfl
  | cons a l ih =>
    by_cases passes : p a = true
    · rw [List.takeWhile_cons_of_pos (weaker a passes), List.takeWhile_cons_of_pos passes,
        List.dropWhile_cons_of_pos passes, ih, List.cons_append]
    · rw [List.takeWhile_cons_of_neg passes, List.dropWhile_cons_of_neg passes, List.nil_append]

theorem dropWhile_weaker {p q : α → Bool} (weaker : ∀ a, p a = true → q a = true) (l : List α) :
    l.dropWhile q = (l.dropWhile p).dropWhile q := by
  induction l with
  | nil => rfl
  | cons a l ih =>
    by_cases passes : p a = true
    · rw [List.dropWhile_cons_of_pos (weaker a passes), List.dropWhile_cons_of_pos passes, ih]
    · rw [List.dropWhile_cons_of_neg passes]

theorem find?_dropWhile {p q : α → Bool} (apart : ∀ a, p a = true → q a = false) (l : List α) :
    (l.dropWhile p).find? q = l.find? q := by
  induction l with
  | nil => rfl
  | cons a l ih =>
    rw [List.dropWhile_cons]
    split <;> rename_i dropped
    · rw [ih, List.find?_cons, apart a dropped]
    · rfl

/-- A search with a stronger test, through `f`, finds the same exactly if what the weaker test
finds first passes it. -/
theorem find?_map_iff {β : Type*} {P : β → Bool} {Q : α → Bool} {Good : α → Prop} {f : α → β}
    (test : ∀ a, P (f a) = true ↔ Q a = true ∧ Good a) (l : List α) :
    (l.map f).find? P = (l.find? Q).map f ↔ ∀ a, l.find? Q = some a → Good a := by
  rw [List.find?_map]
  cases found : l.find? Q with
  | none =>
    have absent : l.find? (P ∘ f) = none := by
      rw [List.find?_eq_none] at found ⊢
      intro a member holds
      exact found a member ((test a).mp holds).1
    rw [absent]
    exact iff_of_true rfl (by simp)
  | some a =>
    have first : Q a = true := List.find?_some found
    constructor
    · intro same b here
      obtain rfl := Option.some.inj here
      obtain ⟨other, passes, equal⟩ := Option.map_eq_some_iff.mp same
      have holds : (P ∘ f) other = true := List.find?_some passes
      rw [Function.comp_apply, equal] at holds
      exact ((test a).mp holds).2
    · intro good
      have passes : P (f a) = true := (test a).mpr ⟨first, good a rfl⟩
      have here : l.find? (P ∘ f) = some a :=
        find?_stronger found passes fun b held => ((test b).mp held).1
      rw [here]

end Solusek.Texts
