import Solusek.Lib.Nesting

/-!
# Open nodes

The indentations on the stack are those that no later item has closed. So an item without a label
can be left out unless it closes a node that a later item would be put under.
-/

namespace Solusek.Nesting

variable {α : Type*}

/-! ### Open nodes -/

theorem dropWhile_eq_filter {p : Nat → Bool} (up : ∀ v w, w < v → p w = true → p v = true)
    {S : List Nat} (sorted : S.Pairwise (· > ·)) : S.dropWhile p = S.filter fun w => !p w := by
  induction S with
  | nil => rfl
  | cons v S ih =>
    obtain ⟨smaller, rest⟩ := List.pairwise_cons.mp sorted
    by_cases dropped : p v = true
    · rw [List.dropWhile_cons_of_pos dropped, List.filter_cons_of_neg (by simp [dropped]), ih rest]
    · rw [List.dropWhile_cons_of_neg dropped, List.filter_eq_self.mpr]
      intro w member
      rcases List.mem_cons.mp member with rfl | older
      · simpa using dropped
      · cases held : p w with
        | false => rfl
        | true => exact absurd (up v w (smaller w older) held) dropped

theorem keep_upto {S : List Nat} (sorted : S.Pairwise (· > ·)) (i : Nat) :
    S.dropWhile (i < ·) = S.filter (· ≤ i) := by
  rw [dropWhile_eq_filter (fun v w less far => decide_eq_true
    ((of_decide_eq_true far).trans less)) sorted]
  refine List.filter_congr fun w _ => ?_
  rw [← decide_not, decide_eq_decide]
  omega

theorem keep_below {S : List Nat} (sorted : S.Pairwise (· > ·)) (j : Nat) :
    S.dropWhile (j ≤ ·) = S.filter (· < j) := by
  rw [dropWhile_eq_filter (fun v w less far => decide_eq_true
    ((of_decide_eq_true far).trans less.le)) sorted]
  refine List.filter_congr fun w _ => ?_
  rw [← decide_not, decide_eq_decide]
  omega

theorem step_sorted {s : State α} (sorted : s.stack.Pairwise (· > ·)) (x : Nat × Option α) :
    (s.step x).stack.Pairwise (· > ·) := by
  obtain ⟨w, a⟩ := x
  cases a with
  | some a =>
    refine List.pairwise_cons.mpr ⟨fun v member => ?_, sorted.sublist (List.dropWhile_sublist _)⟩
    rw [keep_below sorted] at member
    exact of_decide_eq_true (List.mem_filter.mp member).2
  | none => exact sorted.sublist (List.dropWhile_sublist _)

theorem run_sorted {s : State α} (sorted : s.stack.Pairwise (· > ·))
    (items : List (Nat × Option α)) : (run s items).stack.Pairwise (· > ·) := by
  induction items generalizing s with
  | nil => exact sorted
  | cons x items ih => exact ih (step_sorted sorted x)

theorem build_sorted (items : List (Nat × Option α)) :
    (run ⟨[], []⟩ items).stack.Pairwise (· > ·) := run_sorted List.Pairwise.nil items

/-- The item leaves a node indented by `w` open. -/
def Inside (w : Nat) : Nat × Option α → Prop
  | (i, some _) => w < i
  | (i, none) => w ≤ i

/-- A node indented by `w` is open behind the items. -/
def Open (items : List (Nat × Option α)) (w : Nat) : Prop :=
  ∃ before a after, items = before ++ (w, some a) :: after ∧ ∀ x ∈ after, Inside w x

theorem open_snoc (items : List (Nat × Option α)) (x : Nat × Option α) (w : Nat) :
    Open (items ++ [x]) w ↔ (∃ a, x = (w, some a)) ∨ (Open items w ∧ Inside w x) := by
  constructor
  · rintro ⟨before, a, after, split, inside⟩
    rcases List.eq_nil_or_concat' after with rfl | ⟨after, y, rfl⟩
    · exact Or.inl ⟨a, (List.append_inj' split rfl).2 |> List.cons.inj |>.1⟩
    · rw [← List.cons_append, ← List.append_assoc] at split
      obtain ⟨same, last⟩ := List.append_inj' split rfl
      obtain rfl := (List.cons.inj last).1
      exact Or.inr ⟨⟨before, a, after, same, fun z member => inside z (List.mem_append_left _ member)⟩,
        inside x (by simp)⟩
  · rintro (⟨a, rfl⟩ | ⟨⟨before, a, after, rfl, inside⟩, last⟩)
    · exact ⟨items, a, [], rfl, by simp⟩
    · refine ⟨before, a, after ++ [x], by simp, fun z member => ?_⟩
      rcases List.mem_append.mp member with older | new
      · exact inside z older
      · rwa [List.mem_singleton.mp new]

theorem mem_stack (items : List (Nat × Option α)) (w : Nat) :
    w ∈ (run ⟨[], []⟩ items).stack ↔ Open items w := by
  induction items using List.reverseRecOn with
  | nil =>
    refine iff_of_false List.not_mem_nil ?_
    rintro ⟨before, a, after, split, _⟩
    exact absurd split (by simp)
  | append_singleton items x ih =>
    obtain ⟨i, a⟩ := x
    rw [run_snoc, open_snoc, ← ih]
    cases a with
    | some a =>
      simp only [State.step]
      rw [keep_below (build_sorted items), List.mem_cons, List.mem_filter, decide_eq_true_iff]
      simp [Inside, eq_comm]
    | none =>
      simp only [State.step]
      rw [keep_upto (build_sorted items), List.mem_filter, decide_eq_true_iff]
      simp [Inside]

/-! ### Leaving out an item without a label -/

theorem Marked.run {s : State α} {marks : List (Nat × Nat × α)} (marked : Marked s marks)
    (items : List (Nat × Option α)) : ∃ marks', Marked (Nesting.run s items) marks' := by
  induction items generalizing s marks with
  | nil => exact ⟨marks, marked⟩
  | cons x items ih =>
    obtain ⟨w, a⟩ := x
    cases a with
    | some a => exact ih (marked.setting w a)
    | none => exact ih (marked.blank w)

theorem build_marked (items : List (Nat × Option α)) :
    ∃ marks, Marked (run ⟨[], []⟩ items) marks := by
  have fresh : Marked (⟨[], []⟩ : State α) [] := ⟨rfl, .nil 0 []⟩
  exact fresh.run items

theorem Marked.entries_run {s : State α} {marks : List (Nat × Nat × α)} (marked : Marked s marks)
    (items : List (Nat × Option α)) : ∃ more,
      entries (Nesting.run s items).forest = entries s.forest ++ more ∧
        more.map (·.2) = items.filterMap (·.2) := by
  induction items generalizing s marks with
  | nil => exact ⟨[], by simp⟩
  | cons x items ih =>
    obtain ⟨w, a⟩ := x
    cases a with
    | some a =>
      obtain ⟨more, whole, labels⟩ := ih (marked.setting w a)
      obtain ⟨above, made, _⟩ := marked.entries_setting w a
      rw [made, List.append_assoc] at whole
      exact ⟨_, whole, by simp [labels]⟩
    | none =>
      obtain ⟨more, whole, labels⟩ := ih (marked.blank w)
      exact ⟨more, whole, by simpa using labels⟩

theorem labels_build (items : List (Nat × Option α)) :
    (entries (build items)).map (·.2) = items.filterMap (·.2) := by
  have fresh : Marked (⟨[], []⟩ : State α) [] := ⟨rfl, .nil 0 []⟩
  obtain ⟨more, whole, labels⟩ := fresh.entries_run items
  have start : entries ([] : List (Rose α)) = [] := rfl
  rw [start, List.nil_append] at whole
  rw [← labels, ← whole]
  rfl

theorem step_swap {s : State α} (sorted : s.stack.Pairwise (· > ·)) (i k : Nat) :
    (s.step (i, none)).step (k, none) = (s.step (k, none)).step (i, none) := by
  have same : (s.stack.dropWhile (i < ·)).dropWhile (k < ·) =
      (s.stack.dropWhile (k < ·)).dropWhile (i < ·) := by
    rw [keep_upto (sorted.sublist (List.dropWhile_sublist _)), keep_upto sorted,
      keep_upto (sorted.sublist (List.dropWhile_sublist _)), keep_upto sorted, List.filter_comm]
  simp only [State.step, same]

theorem run_swap {c : List (Nat × Option α)} (blank : ∀ x ∈ c, x.2 = none) {s : State α}
    (sorted : s.stack.Pairwise (· > ·)) (i : Nat) :
    run (s.step (i, none)) c = (run s c).step (i, none) := by
  induction c generalizing s with
  | nil => rfl
  | cons x c ih =>
    obtain ⟨k, a⟩ := x
    obtain rfl : a = none := blank (k, a) List.mem_cons_self
    rw [run_cons, run_cons, step_swap sorted]
    exact ih (fun y member => blank y (List.mem_cons_of_mem _ member)) (step_sorted sorted _)

theorem blanks_or (post : List (Nat × Option α)) : (∀ x ∈ post, x.2 = none) ∨
    ∃ c j a d, post = c ++ (j, some a) :: d ∧ ∀ x ∈ c, x.2 = none := by
  induction post with
  | nil => exact Or.inl (by simp)
  | cons x post ih =>
    obtain ⟨i, _ | a⟩ := x
    · rcases ih with blank | ⟨c, j, a, d, rfl, blank⟩
      · exact Or.inl (by simpa using blank)
      · exact Or.inr ⟨(i, none) :: c, j, a, d, rfl, by simpa using blank⟩
    · exact Or.inr ⟨[], i, a, post, rfl, by simp⟩

/-- The next label behind an item indented by `i` belongs below a node that the item closes. -/
def Interrupts (pre : List (Nat × Option α)) (i : Nat) (post : List (Nat × Option α)) : Prop :=
  ∃ c j a d, post = c ++ (j, some a) :: d ∧ (∀ x ∈ c, x.2 = none) ∧
    ∃ w, Open (pre ++ c) w ∧ i < w ∧ w < j

theorem run_skip {c : List (Nat × Option α)} (blank : ∀ x ∈ c, x.2 = none)
    (pre : List (Nat × Option α)) (i : Nat) (d : List (Nat × Option α)) :
    run ⟨[], []⟩ (pre ++ (i, none) :: (c ++ d)) =
      run ((run ⟨[], []⟩ (pre ++ c)).step (i, none)) d := by
  rw [run_append, run_cons, run_append, run_swap blank (build_sorted pre), ← run_append]

theorem build_skip {pre post : List (Nat × Option α)} {i : Nat} (free : ¬ Interrupts pre i post) :
    build (pre ++ (i, none) :: post) = build (pre ++ post) := by
  unfold build
  rcases blanks_or post with blank | ⟨c, j, a, d, rfl, blank⟩
  · have skipped := run_skip blank pre i []
    rw [List.append_nil, run_nil] at skipped
    rw [skipped]
    rfl
  · have sorted := build_sorted (pre ++ c)
    have same : ((run ⟨[], []⟩ (pre ++ c)).stack.dropWhile (i < ·)).dropWhile (j ≤ ·) =
        (run ⟨[], []⟩ (pre ++ c)).stack.dropWhile (j ≤ ·) := by
      rw [keep_below (sorted.sublist (List.dropWhile_sublist _)), keep_upto sorted,
        keep_below sorted, List.filter_filter]
      refine List.filter_congr fun w member => ?_
      have closed : ¬ (i < w ∧ w < j) := fun between =>
        free ⟨c, j, a, d, rfl, blank, w, (mem_stack _ w).mp member, between⟩
      rw [← Bool.decide_and, decide_eq_decide]
      omega
    have stepped : ((run ⟨[], []⟩ (pre ++ c)).step (i, none)).step (j, some a) =
        (run ⟨[], []⟩ (pre ++ c)).step (j, some a) := by
      simp only [State.step, same]
    rw [run_skip blank, run_cons, stepped, ← List.append_assoc, run_append _ (pre ++ c), run_cons]

/-- Otherwise the next label moves up. -/
theorem entries_skip {pre post : List (Nat × Option α)} {i : Nat}
    (interrupts : Interrupts pre i post) : ∃ es above below a more more',
      post.findSome? (·.2) = some a ∧
        entries (build (pre ++ (i, none) :: post)) = es ++ (above, a) :: more ∧
          entries (build (pre ++ post)) = es ++ (below, a) :: more' ∧
            above.length < below.length := by
  obtain ⟨c, j, a, d, rfl, blank, w, here, less, more⟩ := interrupts
  obtain ⟨marks, marked⟩ := build_marked (pre ++ c)
  have sorted := build_sorted (pre ++ c)
  obtain ⟨rest, whole, _⟩ := ((marked.blank i).setting j a).entries_run d
  obtain ⟨rest', whole', _⟩ := (marked.setting j a).entries_run d
  obtain ⟨above, made, size⟩ := (marked.blank i).entries_setting j a
  obtain ⟨below, made', size'⟩ := marked.entries_setting j a
  rw [made, List.append_assoc] at whole
  rw [made', List.append_assoc] at whole'
  have left : build (pre ++ (i, none) :: (c ++ (j, some a) :: d)) =
      (run (((run ⟨[], []⟩ (pre ++ c)).step (i, none)).step (j, some a)) d).forest := by
    unfold build
    rw [run_skip blank, run_cons]
  have right : build (pre ++ (c ++ (j, some a) :: d)) =
      (run ((run ⟨[], []⟩ (pre ++ c)).step (j, some a)) d).forest := by
    unfold build
    rw [← List.append_assoc, run_append, run_cons]
  have next : (c ++ (j, some a) :: d).findSome? (·.2) = some a := by
    rw [List.findSome?_append, List.findSome?_eq_none_iff.mpr blank]
    rfl
  refine ⟨_, above, below, a, rest, rest', next, left ▸ whole, right ▸ whole', ?_⟩
  have moved : (((run ⟨[], []⟩ (pre ++ c)).stack.dropWhile (i < ·)).dropWhile (j ≤ ·)).length <
      ((run ⟨[], []⟩ (pre ++ c)).stack.dropWhile (j ≤ ·)).length := by
    rw [keep_below (sorted.sublist (List.dropWhile_sublist _)), keep_upto sorted,
      keep_below sorted, List.filter_comm, List.length_filter_lt_length_iff_exists]
    refine ⟨w, List.mem_filter.mpr ⟨(mem_stack _ w).mpr here, decide_eq_true more⟩, ?_⟩
    simpa using less
  rw [size, size']
  exact moved

end Solusek.Nesting
