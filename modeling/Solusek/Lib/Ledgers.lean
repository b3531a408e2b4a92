import Mathlib

/-!
# Objects that are made, kept and given back

A ledger numbers objects as they are made. Some are given back at once, some are kept, and
everything kept may be given back all together, again each time. When at the end all that is
kept is given back, each object has been given back once exactly if none was lost on the way
and nothing was given back while it was kept.
-/

namespace Solusek.Ledgers

structure Ledger where
  made : Nat := 0
  held : List Nat := []
  back : List Nat := []

/-- `take n given kept` makes `n` objects, the lists count from the first of them. -/
inductive Move where
  | take (n : Nat) (given kept : List Nat)
  | giveAll
  deriving DecidableEq

namespace Move

def Bounded : Move → Prop
  | take n given kept => (∀ x ∈ given, x < n) ∧ ∀ x ∈ kept, x < n
  | giveAll => True

/-- No object is lost. -/
def Whole : Move → Prop
  | take n given kept => ∀ x < n, given.count x + kept.count x = 1
  | giveAll => True

def Keeps : Move → Prop
  | take _ _ kept => kept ≠ []
  | giveAll => False

end Move

namespace Ledger

def step (l : Ledger) : Move → Ledger
  | .take n given kept =>
    { made := l.made + n
      held := l.held ++ kept.map (l.made + ·)
      back := l.back ++ given.map (l.made + ·) }
  | .giveAll => { l with back := l.back ++ l.held }

def run (l : Ledger) (moves : List Move) : Ledger := moves.foldl step l

def Once (l : Ledger) : Prop := ∀ x < l.made, l.back.count x = 1

/-- Nothing is held or given back that has not been made. -/
def Known (l : Ledger) : Prop := (∀ x ∈ l.held, x < l.made) ∧ ∀ x ∈ l.back, x < l.made

theorem count_shifted (m x : Nat) (l : List Nat) : (l.map (m + ·)).count (m + x) = l.count x :=
  List.count_map_of_injective l _ (fun _ _ same => Nat.add_left_cancel same) x

theorem count_shifted_below {m x : Nat} (below : x < m) (l : List Nat) :
    (l.map (m + ·)).count x = 0 := by
  refine List.count_eq_zero.mpr fun member => ?_
  obtain ⟨y, _, rfl⟩ := List.mem_map.mp member
  omega

theorem step_known {l : Ledger} (known : l.Known) {m : Move} (bounded : m.Bounded) :
    (l.step m).Known := by
  obtain ⟨held, back⟩ := known
  cases m with
  | giveAll => exact ⟨held, fun x member => (List.mem_append.mp member).elim (back x) (held x)⟩
  | take n given kept =>
    constructor
    · intro x member
      rcases List.mem_append.mp member with old | new
      · exact (held x old).trans_le (Nat.le_add_right _ _)
      · obtain ⟨y, inside, rfl⟩ := List.mem_map.mp new
        exact Nat.add_lt_add_left (bounded.2 y inside) _
    · intro x member
      rcases List.mem_append.mp member with old | new
      · exact (back x old).trans_le (Nat.le_add_right _ _)
      · obtain ⟨y, inside, rfl⟩ := List.mem_map.mp new
        exact Nat.add_lt_add_left (bounded.1 y inside) _

theorem take_counts {l : Ledger} (known : l.Known) (n : Nat) (given kept : List Nat) :
    (∀ x < l.made, (l.step (.take n given kept)).back.count x = l.back.count x ∧
      (l.step (.take n given kept)).held.count x = l.held.count x) ∧
    ∀ x, (l.step (.take n given kept)).back.count (l.made + x) = given.count x ∧
      (l.step (.take n given kept)).held.count (l.made + x) = kept.count x := by
  constructor
  · intro x old
    simp only [step, List.count_append, count_shifted_below old, Nat.add_zero, and_self]
  · intro x
    have noHeld : l.held.count (l.made + x) = 0 := by
      refine List.count_eq_zero.mpr fun member => ?_
      have bound := known.1 _ member
      omega
    have noBack : l.back.count (l.made + x) = 0 := by
      refine List.count_eq_zero.mpr fun member => ?_
      have bound := known.2 _ member
      omega
    simp only [step, List.count_append, count_shifted, noHeld, noBack, Nat.zero_add, and_self]

/-- One object, given back `given` times at once and kept `kept` times through `n` more rounds. -/
theorem once_arith (given kept n : Nat) :
    given + kept * (n + 1) = 1 ↔ given + kept = 1 ∧ (kept ≠ 0 → n = 0) := by
  rcases kept with _ | kept
  · simp
  · constructor
    · intro total
      have bound : (kept + 1) * (n + 1) = kept * n + kept + n + 1 := by ring
      have positive : 0 ≤ kept * n := Nat.zero_le _
      omega
    · rintro ⟨total, last⟩
      rw [last (Nat.succ_ne_zero _)]
      omega

/-- The induction is on the moves; the ledger in front of them may hold objects already. -/
theorem once_run_iff {l : Ledger} (known : l.Known) {moves : List Move}
    (bounded : ∀ m ∈ moves, m.Bounded) :
    (l.run (moves ++ [.giveAll])).Once ↔
      (∀ x < l.made, l.back.count x + l.held.count x * (moves.count .giveAll + 1) = 1) ∧
      (∀ m ∈ moves, m.Whole) ∧ moves.Pairwise fun m m' => ¬ (m.Keeps ∧ m' = .giveAll) := by
  induction moves generalizing l with
  | nil => simp [run, step, Once]
  | cons m moves ih =>
    obtain ⟨here, later⟩ := List.forall_mem_cons.mp bounded
    have rest := ih (step_known known here) later
    rw [List.cons_append, run, List.foldl_cons]
    rw [run] at rest
    rw [rest, List.forall_mem_cons, List.pairwise_cons]
    cases m with
    | giveAll =>
      have counts (x : Nat) : (l.step .giveAll).back.count x +
          (l.step .giveAll).held.count x * (moves.count .giveAll + 1) =
          l.back.count x + l.held.count x * ((Move.giveAll :: moves).count .giveAll + 1) := by
        simp only [step, List.count_append, List.count_cons_self]
        ring
      simp only [counts]
      simp [Move.Whole, Move.Keeps, step]
    | take n given kept =>
      obtain ⟨old, new⟩ := take_counts known n given kept
      have calls : (Move.take n given kept :: moves).count .giveAll = moves.count .giveAll := by
        simp
      rw [calls]
      have split : (∀ x < (l.step (.take n given kept)).made,
          (l.step (.take n given kept)).back.count x +
            (l.step (.take n given kept)).held.count x * (moves.count .giveAll + 1) = 1) ↔
          (∀ x < l.made, l.back.count x + l.held.count x * (moves.count .giveAll + 1) = 1) ∧
            ∀ x < n, given.count x + kept.count x * (moves.count .giveAll + 1) = 1 := by
        constructor
        · intro all
          refine ⟨fun x below => ?_, fun x below => ?_⟩
          · have one := all x (below.trans_le (Nat.le_add_right _ _))
            rwa [(old x below).1, (old x below).2] at one
          · have one := all (l.made + x) (Nat.add_lt_add_left below _)
            rwa [(new x).1, (new x).2] at one
        · rintro ⟨before, behind⟩ x below
          by_cases first : x < l.made
          · rw [(old x first).1, (old x first).2]
            exact before x first
          · obtain ⟨y, rfl⟩ := Nat.exists_eq_add_of_le (Nat.le_of_not_lt first)
            rw [(new y).1, (new y).2]
            exact behind y (Nat.lt_of_add_lt_add_left below)
      have last : (∀ x < n, kept.count x ≠ 0 → moves.count .giveAll = 0) ↔
          ∀ m' ∈ moves, ¬ ((Move.take n given kept).Keeps ∧ m' = .giveAll) := by
        constructor
        · rintro none m' member ⟨filled, rfl⟩
          obtain ⟨x, inside⟩ := List.exists_mem_of_ne_nil kept filled
          exact List.count_eq_zero.mp (none x (here.2 x inside) (List.count_pos_iff.mpr inside).ne')
            member
        · intro none x _ inside
          refine List.count_eq_zero.mpr fun member => none _ member ⟨?_, rfl⟩
          exact List.ne_nil_of_mem (List.count_pos_iff.mp (Nat.pos_of_ne_zero inside))
      have both : (∀ x < n, given.count x + kept.count x * (moves.count .giveAll + 1) = 1) ↔
          (Move.take n given kept).Whole ∧
            ∀ m' ∈ moves, ¬ ((Move.take n given kept).Keeps ∧ m' = .giveAll) := by
        rw [← last]
        simp only [once_arith, Move.Whole, forall_and]
      rw [split, both]
      tauto

end Ledger

end Solusek.Ledgers
