import Solusek.Lib.Forests

/-!
# Nesting by indentation

Forests written as lists of indented items. A stack of the open indentations takes one item after
the other; an item without a label closes what is indented further and makes no node.
-/

namespace Solusek.Nesting

variable {α : Type*}

/-! ### The stack -/

/-- The forest so far, and the indentations of the open nodes, the deepest first. -/
structure State (α : Type*) where
  forest : List (Rose α)
  stack : List Nat

def State.step (s : State α) : Nat × Option α → State α
  | (w, some a) =>
    ⟨attach (s.stack.dropWhile (w ≤ ·)).length a s.forest, w :: s.stack.dropWhile (w ≤ ·)⟩
  | (w, none) => ⟨s.forest, s.stack.dropWhile (w < ·)⟩

def run (s : State α) (items : List (Nat × Option α)) : State α := items.foldl State.step s

def build (items : List (Nat × Option α)) : List (Rose α) := (run ⟨[], []⟩ items).forest

@[simp] theorem run_nil (s : State α) : run s [] = s := rfl

@[simp] theorem run_cons (s : State α) (item : Nat × Option α) (items : List (Nat × Option α)) :
    run s (item :: items) = run (s.step item) items := rfl

theorem run_append (s : State α) (xs ys : List (Nat × Option α)) :
    run s (xs ++ ys) = run (run s xs) ys := List.foldl_append

theorem run_snoc (s : State α) (xs : List (Nat × Option α)) (item : Nat × Option α) :
    run s (xs ++ [item]) = (run s xs).step item := by
  rw [run_append, run_cons, run_nil]

/-- The open nodes of a state: indentation, position and label, the deepest first. -/
def Marked (s : State α) (marks : List (Nat × Nat × α)) : Prop :=
  s.stack = marks.map (·.1) ∧ Trail 0 s.forest (marks.map (·.2)).reverse

theorem Marked.kept {s : State α} {marks : List (Nat × Nat × α)} (marked : Marked s marks)
    (p : Nat → Bool) : s.stack.dropWhile p = (marks.dropWhile fun m => p m.1).map (·.1) ∧
      Trail 0 s.forest ((marks.dropWhile fun m => p m.1).map (·.2)).reverse := by
  obtain ⟨stack, trail⟩ := marked
  refine ⟨by rw [stack, List.dropWhile_map]; rfl, ?_⟩
  rw [← List.takeWhile_append_dropWhile (p := fun m : Nat × Nat × α => p m.1) (l := marks),
    List.map_append, List.reverse_append] at trail
  exact trail.left

theorem Marked.setting {s : State α} {marks : List (Nat × Nat × α)} (marked : Marked s marks)
    (w : Nat) (a : α) :
    Marked (s.step (w, some a))
      ((w, sizes s.forest, a) :: marks.dropWhile fun m => decide (w ≤ m.1)) := by
  obtain ⟨stack, trail⟩ := marked.kept (w ≤ ·)
  have made := trail.attach a
  rw [List.length_reverse, List.length_map, Nat.zero_add] at made
  refine ⟨by simp [State.step, stack], ?_⟩
  simpa [State.step, stack] using made

theorem Marked.blank {s : State α} {marks : List (Nat × Nat × α)} (marked : Marked s marks)
    (w : Nat) : Marked (s.step (w, none)) (marks.dropWhile fun m => decide (w < m.1)) :=
  marked.kept (w < ·)

theorem Marked.sizes_setting {s : State α} {marks : List (Nat × Nat × α)} (marked : Marked s marks)
    (w : Nat) (a : α) : sizes (s.step (w, some a)).forest = sizes s.forest + 1 := by
  obtain ⟨stack, trail⟩ := marked.kept (w ≤ ·)
  have made := trail.sizes_attach a
  rw [List.length_reverse, List.length_map] at made
  simpa [State.step, stack] using made

theorem Marked.preorder_setting {s : State α} {marks : List (Nat × Nat × α)}
    (marked : Marked s marks) (w : Nat) (a : α) :
    preorder none 0 (s.step (w, some a)).forest =
      preorder none 0 s.forest ++ [(a, (marks.find? fun m => decide (m.1 < w)).map (·.2.1))] := by
  obtain ⟨stack, trail⟩ := marked.kept (w ≤ ·)
  have made := trail.preorder_attach a none
  have first : (marks.dropWhile fun m => decide (w ≤ m.1)).head? =
      marks.find? fun m => decide (m.1 < w) := by
    rw [← List.find?_not_eq_head?_dropWhile]
    congr 1
    funext m
    rw [← decide_not, decide_eq_decide]
    omega
  rw [List.length_reverse, List.length_map, List.getLast?_reverse, List.head?_map, first,
    Option.map_map] at made
  simpa [State.step, stack, Function.comp_def] using made

theorem Marked.entries_setting {s : State α} {marks : List (Nat × Nat × α)}
    (marked : Marked s marks) (w : Nat) (a : α) : ∃ above,
      entries (s.step (w, some a)).forest = entries s.forest ++ [(above, a)] ∧
        above.length = (s.stack.dropWhile (w ≤ ·)).length := by
  obtain ⟨stack, trail⟩ := marked.kept (w ≤ ·)
  have made := trail.entries_attach a
  rw [List.length_reverse, List.length_map] at made
  simp only [State.step, stack, List.length_map]
  exact ⟨_, made, by simp⟩

/-! ### Nearest smaller indentations -/

/-- The position of the last indentation smaller than `w`. -/
def nearest (before : List Nat) (w : Nat) : Option Nat :=
  (before.zipIdx.reverse.find? fun e => decide (e.1 < w)).map (·.2)

/-- The items that follow the indentations `before`, each with the position of the nearest
earlier one with a smaller indentation. -/
def outline (before : List Nat) : List (Nat × α) → List (α × Option Nat)
  | [] => []
  | (w, a) :: rest => (a, nearest before w) :: outline (before ++ [w]) rest

theorem nearest_snoc (before : List Nat) (w t : Nat) :
    nearest (before ++ [w]) t = if w < t then some before.length else nearest before t := by
  unfold nearest
  rw [List.zipIdx_append, List.zipIdx_singleton, Texts.find?_reverse_snoc, Nat.zero_add]
  split <;> rename_i smaller
  · rw [if_pos (of_decide_eq_true smaller)]
    rfl
  · rw [if_neg fun less => smaller (decide_eq_true less)]

theorem outline_snoc (before : List Nat) (items : List (Nat × α)) (w : Nat) (a : α) :
    outline before (items ++ [(w, a)]) =
      outline before items ++ [(a, nearest (before ++ items.map (·.1)) w)] := by
  induction items generalizing before with
  | nil => simp [outline]
  | cons item items ih => simp [outline, ih]

/-- The stack finds the nearest smaller indentation of every item to come. -/
theorem run_nearest (items : List (Nat × α)) :
    ∃ marks, Marked (run ⟨[], []⟩ (items.map fun x => (x.1, some x.2))) marks ∧
      sizes (run ⟨[], []⟩ (items.map fun x => (x.1, some x.2))).forest = items.length ∧
      (∀ t, (marks.find? fun m => decide (m.1 < t)).map (·.2.1) = nearest (items.map (·.1)) t) ∧
      preorder none 0 (run ⟨[], []⟩ (items.map fun x => (x.1, some x.2))).forest =
        outline [] items := by
  induction items using List.reverseRecOn with
  | nil => exact ⟨[], ⟨rfl, .nil _ _⟩, rfl, fun t => rfl, rfl⟩
  | append_singleton items item ih =>
    obtain ⟨w, a⟩ := item
    obtain ⟨marks, marked, size, found, order⟩ := ih
    rw [List.map_append, List.map_singleton, run_snoc]
    refine ⟨_, marked.setting w a, ?_, fun t => ?_, ?_⟩
    · rw [marked.sizes_setting, size, List.length_append, List.length_singleton]
    · rw [List.map_append, List.map_singleton, nearest_snoc, List.length_map, ← found t,
        List.find?_cons]
      by_cases smaller : w < t
      · simp [smaller, size]
      · -- What is dropped is indented at least as far as `t`.
        have passed : ((marks.dropWhile fun m => decide (w ≤ m.1)).find? fun m => decide (m.1 < t)) =
            marks.find? fun m => decide (m.1 < t) := by
          refine Texts.find?_dropWhile (fun m further => decide_eq_false fun less => ?_) marks
          have far := of_decide_eq_true further
          omega
        simp [smaller, passed]
    · rw [marked.preorder_setting, order, outline_snoc, found w, List.nil_append]

theorem preorder_build (items : List (Nat × α)) :
    preorder none 0 (build (items.map fun x => (x.1, some x.2))) = outline [] items := by
  obtain ⟨_, _, _, _, order⟩ := run_nearest items
  exact order

/-! ### Levels -/

theorem dropWhile_snoc {p : Nat → Bool} {w : Nat} (stays : p w = false) (S : List Nat) :
    (S ++ [w]).dropWhile p = S.dropWhile p ++ [w] := by
  induction S with
  | nil => rw [List.nil_append, List.dropWhile_cons_of_neg (by simp [stays])]; rfl
  | cons v S ih =>
    rw [List.cons_append, List.dropWhile_cons, List.dropWhile_cons, ih]
    split <;> rfl

theorem step_below {shift w : Nat} (deeper : shift < w) (x : Option α) (F children : List (Rose α))
    (b : α) (S : List Nat) :
    State.step ⟨F ++ [.node b children], S ++ [shift]⟩ (w, x) =
      ⟨F ++ [.node b (State.step ⟨children, S⟩ (w, x)).forest],
        (State.step ⟨children, S⟩ (w, x)).stack ++ [shift]⟩ := by
  cases x with
  | some a =>
    have stays : decide (w ≤ shift) = false := decide_eq_false (Nat.not_le.mpr deeper)
    simp only [State.step]
    rw [dropWhile_snoc stays, List.length_append, List.length_singleton, attach_snoc,
      List.cons_append]
  | none =>
    have stays : decide (w < shift) = false := decide_eq_false (Nat.not_lt.mpr deeper.le)
    simp only [State.step]
    rw [dropWhile_snoc stays]

theorem run_below {shift : Nat} {items : List (Nat × Option α)}
    (deeper : ∀ item ∈ items, shift < item.1) (F children : List (Rose α)) (b : α) (S : List Nat) :
    run ⟨F ++ [.node b children], S ++ [shift]⟩ items =
      ⟨F ++ [.node b (run ⟨children, S⟩ items).forest], (run ⟨children, S⟩ items).stack ++ [shift]⟩ := by
  induction items generalizing children S with
  | nil => rfl
  | cons item items ih =>
    obtain ⟨w, x⟩ := item
    rw [run_cons, run_cons, step_below (deeper (w, x) List.mem_cons_self)]
    exact ih (fun item member => deeper item (List.mem_cons_of_mem _ member)) _ _

theorem run_stack {w : Nat} {items : List (Nat × Option α)} (above : ∀ item ∈ items, w ≤ item.1)
    {s : State α} (start : ∀ v ∈ s.stack, w ≤ v) : ∀ v ∈ (run s items).stack, w ≤ v := by
  induction items generalizing s with
  | nil => exact start
  | cons item items ih =>
    refine ih (fun item member => above item (List.mem_cons_of_mem _ member)) fun v member => ?_
    obtain ⟨i, x⟩ := item
    have kept (p : Nat → Bool) (inside : v ∈ s.stack.dropWhile p) : w ≤ v :=
      start v ((List.dropWhile_suffix p).subset inside)
    cases x with
    | some a =>
      rcases List.mem_cons.mp member with rfl | older
      · exact above _ List.mem_cons_self
      · exact kept _ older
    | none => exact kept _ member

/-- Open nodes that the next item closes make no difference. -/
theorem run_closed {w : Nat} {items : List (Nat × Option α)} {T : List Nat}
    (high : ∀ v ∈ T, w ≤ v) (next : ∀ item ∈ items.head?, item.1 < w) (F : List (Rose α))
    (S : List Nat) : (run ⟨F, T ++ S⟩ items).forest = (run ⟨F, S⟩ items).forest := by
  cases items with
  | nil => rfl
  | cons item items =>
    obtain ⟨i, x⟩ := item
    have less : i < w := next _ rfl
    have same : State.step ⟨F, T ++ S⟩ (i, x) = State.step ⟨F, S⟩ (i, x) := by
      cases x with
      | some a =>
        have gone : ∀ v ∈ T, decide (i ≤ v) = true := fun v member =>
          decide_eq_true (less.le.trans (high v member))
        simp only [State.step]
        rw [List.dropWhile_append_of_pos gone]
      | none =>
        have gone : ∀ v ∈ T, decide (i < v) = true := fun v member =>
          decide_eq_true (less.trans_le (high v member))
        simp only [State.step]
        rw [List.dropWhile_append_of_pos gone]
    rw [run_cons, run_cons, same]

/-- A deeper level works on the children of the last node, and is left for good. -/
theorem run_nested {shift w : Nat} {xs ys : List (Nat × Option α)} (deeper : shift < w)
    (above : ∀ item ∈ xs, w ≤ item.1) (next : ∀ item ∈ ys.head?, item.1 < w)
    (F children : List (Rose α)) (b : α) :
    (run ⟨F ++ [.node b children], [shift]⟩ (xs ++ ys)).forest =
      (run ⟨F ++ [.node b (run ⟨children, []⟩ xs).forest], [shift]⟩ ys).forest := by
  have below := run_below (fun item member => deeper.trans_le (above item member)) F children b []
  rw [List.nil_append] at below
  rw [run_append, below]
  exact run_closed (run_stack above (by simp)) next _ _

theorem run_same {w : Nat} {xs ys : List (Nat × Option α)} (above : ∀ item ∈ xs, w ≤ item.1)
    (next : ∀ item ∈ ys.head?, item.1 < w) (F : List (Rose α)) :
    (run ⟨F, []⟩ (xs ++ ys)).forest = (run ⟨(run ⟨F, []⟩ xs).forest, []⟩ ys).forest := by
  have closed := run_closed (run_stack above (s := ⟨F, []⟩) (by simp)) next
    (run ⟨F, []⟩ xs).forest []
  rw [List.append_nil] at closed
  rw [run_append, ← closed]

end Solusek.Nesting
