import Solusek.Lib.Runs
import Solusek.Model.Ownership

/-!
# Every handle deleted

A handle is deleted once by `cleanup()` or the transaction's destructor, and once more for
each time its caller disposed it. `Handles` never forgets a disposed handle.
-/

namespace Solusek.Ownership

open Transition

/-- The handle and its resource have been deleted exactly once. -/
def State.DeletedOnce (s : State) (h : Nat) : Prop :=
  s.deletedHandles.count h = 1 ∧ s.deletedResources.count (s.resourceOf h) = 1

def disposals (h : Nat) (ops : List Op) : Nat := ops.countP fun op => op.disposed = some h

/-! ### Deleting and making -/

theorem foldl_delete (hs : List Nat) (s : State) :
    hs.foldl State.delete s =
      { s with
        deletedHandles := s.deletedHandles ++ hs
        deletedResources := s.deletedResources ++ hs.map s.resourceOf } := by
  induction hs generalizing s with
  | nil => simp
  | cons h rest ih =>
    rw [List.foldl_cons, ih]
    simp only [State.delete, List.append_assoc, List.singleton_append, List.map_cons]
    rfl

theorem cleanup_eq (s : State) :
    CTransaction.cleanup s =
      { s with
        Handles := []
        deletedHandles := s.deletedHandles ++ s.Handles
        deletedResources := s.deletedResources ++ s.Handles.map s.resourceOf } := by
  rw [CTransaction.cleanup, foldl_delete]

/-- What an operation can do: make nothing or a resource alone, make a handle, delete one
handle, or delete all. -/
theorem next_cases (s : State) (op : Op) :
    (op.disposed = none ∧ ∃ n, s.next op = { s with resources := s.resources + n }) ∨
    (op.disposed = none ∧ s.next op = s.newResource.newHandle s.resources) ∨
    (∃ h, op.disposed = some h ∧ s.next op = s.delete h) ∨
    (op.disposed = none ∧ ∃ gone, s.next op = { CTransaction.cleanup s with gone := gone }) := by
  cases op with
  | insert throws | selectOne throws =>
    cases throws with
    | true => exact Or.inl ⟨rfl, 0, rfl⟩
    | false => exact Or.inr (Or.inl ⟨rfl, rfl⟩)
  | selectCustom throws | select throws =>
    cases throws with
    | true => exact Or.inl ⟨rfl, 1, rfl⟩
    | false => exact Or.inr (Or.inl ⟨rfl, rfl⟩)
  | dispose h | disposeAndGetError h | disposeAndGetID h =>
    exact Or.inr (Or.inr (Or.inl ⟨h, rfl, rfl⟩))
  | cleanup => exact Or.inr (Or.inr (Or.inr ⟨rfl, s.gone, by rw [State.next, cleanup_eq]⟩))
  | disposeTransaction => exact Or.inr (Or.inr (Or.inr ⟨rfl, true, rfl⟩))

/-! ### The invariant -/

/-- Each handle made is either in `Handles` or was deleted from there, and disposals come on
top; resources go with their handles. -/
structure Kept (ops : List Op) (s : State) : Prop where
  apart : s.RS.Nodup
  below : ∀ r ∈ s.RS, r < s.resources
  known : ∀ h ∈ s.Handles ++ s.deletedHandles, h < s.RS.length
  counted : ∀ h < s.RS.length,
    s.Handles.count h + s.deletedHandles.count h = 1 + disposals h ops
  unborn : ∀ h, s.RS.length ≤ h → disposals h ops = 0
  together : s.deletedResources = s.deletedHandles.map s.resourceOf
  emptied : s.gone = true → s.Handles = []

theorem new_kept : Kept [] State.new := by
  constructor <;> simp [State.new, disposals]

theorem disposals_snoc (h : Nat) (ops : List Op) (op : Op) :
    disposals h (ops ++ [op]) = disposals h ops + if op.disposed = some h then 1 else 0 := by
  simp [disposals, List.countP_append, List.countP_singleton]

theorem disposals_idle {ops : List Op} {op : Op} (idle : op.disposed = none) (h : Nat) :
    disposals h (ops ++ [op]) = disposals h ops := by
  rw [disposals_snoc, idle]
  rfl

theorem resourceOf_newHandle (s : State) (rs : Nat) {hs : List Nat}
    (known : ∀ h ∈ hs, h < s.RS.length) :
    hs.map (s.newResource.newHandle rs).resourceOf = hs.map s.resourceOf := by
  apply List.map_congr_left
  intro h member
  simp [State.resourceOf, State.newHandle, State.newResource, List.getD_eq_getElem?_getD,
    List.getElem?_append_left (known h member)]

theorem idle_kept {ops : List Op} {s : State} {op : Op} (kept : Kept ops s)
    (idle : op.disposed = none) (n : Nat) :
    Kept (ops ++ [op]) { s with resources := s.resources + n } := by
  obtain ⟨apart, below, known, counted, unborn, together, emptied⟩ := kept
  refine ⟨apart, fun r member => Nat.lt_of_lt_of_le (below r member) (Nat.le_add_right _ _), known,
    ?_, ?_, together, emptied⟩
  · intro h bound
    rw [disposals_idle idle]
    exact counted h bound
  · intro h later
    rw [disposals_idle idle]
    exact unborn h later

theorem newHandle_kept {ops : List Op} {s : State} {op : Op} (kept : Kept ops s)
    (idle : op.disposed = none) (running : s.gone = false) :
    Kept (ops ++ [op]) (s.newResource.newHandle s.resources) := by
  obtain ⟨apart, below, known, counted, unborn, together, _⟩ := kept
  constructor
  · refine List.nodup_append.mpr ⟨apart, by simp, ?_⟩
    intro a old b single same
    have bound := below a old
    have equal : b = s.resources := by simpa using single
    omega
  · intro r member
    rcases List.mem_append.mp member with old | made
    · exact Nat.lt_succ_of_lt (below r old)
    · rw [List.mem_singleton.mp made]
      exact Nat.lt_succ_self _
  · intro h member
    simp only [State.newHandle, State.newResource, List.length_append, List.length_singleton,
      List.mem_append, List.mem_singleton] at member ⊢
    rcases member with (old | rfl) | old
    · exact Nat.lt_succ_of_lt (known h (List.mem_append_left _ old))
    · exact Nat.lt_succ_self _
    · exact Nat.lt_succ_of_lt (known h (List.mem_append_right _ old))
  · intro h bound
    simp only [State.newHandle, State.newResource, List.length_append, List.length_singleton,
      List.count_append, disposals_idle idle] at bound ⊢
    rcases Nat.lt_or_eq_of_le (Nat.le_of_lt_succ bound) with old | rfl
    · have other : List.count h [s.RS.length] = 0 :=
        List.count_eq_zero.mpr fun member => Nat.ne_of_lt old (List.mem_singleton.mp member)
      have before := counted h old
      omega
    · -- the new handle: nothing has touched its number yet
      have absent : s.Handles.count s.RS.length + s.deletedHandles.count s.RS.length = 0 := by
        rw [← List.count_append]
        exact List.count_eq_zero.mpr fun member => Nat.lt_irrefl _ (known _ member)
      have one : List.count s.RS.length [s.RS.length] = 1 := by simp
      have none_yet := unborn _ (Nat.le_refl _)
      omega
  · intro h later
    simp only [State.newHandle, State.newResource, List.length_append, List.length_singleton]
      at later
    rw [disposals_idle idle]
    exact unborn h (by omega)
  · have same := resourceOf_newHandle s s.resources
      fun h member => known h (List.mem_append_right _ member)
    exact together.trans same.symm
  · intro ended
    exact absurd (running.symm.trans ended) Bool.false_ne_true

theorem delete_kept {ops : List Op} {s : State} {op : Op} {h : Nat} (kept : Kept ops s)
    (disposes : op.disposed = some h) (made : h < s.RS.length) :
    Kept (ops ++ [op]) (s.delete h) := by
  obtain ⟨apart, below, known, counted, unborn, together, emptied⟩ := kept
  have disposed : ∀ g, disposals g (ops ++ [op]) = disposals g ops + [h].count g := by
    intro g
    rw [disposals_snoc, disposes, List.count_singleton]
    by_cases same : h = g <;> simp [same]
  refine ⟨apart, below, ?_, ?_, ?_, ?_, emptied⟩
  · intro g member
    simp only [State.delete, List.mem_append, List.mem_singleton] at member ⊢
    rcases member with old | old | rfl
    · exact known g (List.mem_append_left _ old)
    · exact known g (List.mem_append_right _ old)
    · exact made
  · intro g bound
    have before := counted g bound
    simp only [State.delete, List.count_append, disposed]
    omega
  · intro g later
    have other : [h].count g = 0 := by
      have different : ¬ h = g := by
        rintro rfl
        exact Nat.not_lt.mpr later made
      simp [different]
    rw [disposed, unborn g later, other]
  · simp only [State.delete, List.map_append, List.map_singleton, together]
    rfl

theorem cleanup_kept {ops : List Op} {s : State} {op : Op} (kept : Kept ops s)
    (idle : op.disposed = none) (gone : Bool) :
    Kept (ops ++ [op]) { CTransaction.cleanup s with gone := gone } := by
  obtain ⟨apart, below, known, counted, unborn, together, _⟩ := kept
  rw [cleanup_eq]
  refine ⟨apart, below, ?_, ?_, ?_, ?_, fun _ => rfl⟩
  · intro h member
    refine known h ?_
    simpa [or_comm] using member
  · intro h bound
    have before := counted h bound
    simp only [List.count_nil, List.count_append, disposals_idle idle]
    omega
  · intro h later
    rw [disposals_idle idle]
    exact unborn h later
  · simp only [List.map_append, together]
    rfl

theorem run_kept {ops : List Op} {s : State} (run : Runs State.Step State.new ops s) :
    Kept ops s := by
  induction run with
  | nil => exact new_kept
  | @snoc ops s t op _ last kept =>
    obtain ⟨⟨running, own⟩, rfl⟩ := last
    rcases next_cases s op with ⟨idle, n, same⟩ | ⟨idle, same⟩ | ⟨h, disposes, same⟩ |
      ⟨idle, gone, same⟩ <;> rw [same]
    · exact idle_kept kept idle n
    · exact newHandle_kept kept idle running
    · exact delete_kept kept disposes (own h disposes).1
    · exact cleanup_kept kept idle gone

/-! ### Deleted once -/

theorem Kept.resource_own {ops : List Op} {s : State} (kept : Kept ops s) {g h : Nat}
    (first : g < s.RS.length) (second : h < s.RS.length)
    (same : s.resourceOf g = s.resourceOf h) : g = h := by
  simp only [State.resourceOf, List.getD_eq_getElem _ _ first,
    List.getD_eq_getElem _ _ second] at same
  exact (kept.apart.getElem_inj_iff).mp same

theorem Kept.resource_count {ops : List Op} {s : State} (kept : Kept ops s) {h : Nat}
    (made : h < s.RS.length) :
    s.deletedResources.count (s.resourceOf h) = s.deletedHandles.count h := by
  rw [kept.together, List.count, List.count, List.countP_map]
  apply List.countP_congr
  intro g member
  have known := kept.known g (List.mem_append_right _ member)
  simp only [Function.comp_apply, beq_iff_eq]
  exact ⟨kept.resource_own known made, fun same => same ▸ rfl⟩

/-- Once the transaction is gone, a handle and its resource have been deleted exactly once if
and only if the caller never disposed it. -/
theorem deleted_once_iff {ops : List Op} {s : State} (run : Runs State.Step State.new ops s)
    (gone : s.gone = true) {h : Nat} (made : h < s.RS.length) :
    s.DeletedOnce h ↔ ∀ op ∈ ops, op.disposed ≠ some h := by
  have kept := run_kept run
  have total := kept.counted h made
  rw [kept.emptied gone, List.count_nil, Nat.zero_add] at total
  rw [State.DeletedOnce, kept.resource_count made, and_self, total]
  have never : disposals h ops = 0 ↔ ∀ op ∈ ops, op.disposed ≠ some h := by
    simp [disposals, List.countP_eq_zero]
  rw [← never]
  omega

/-- A handle left to the transaction. -/
theorem deleted_once_kept :
    ((State.new.next (.insert false)).next .disposeTransaction).DeletedOnce 0 := by
  have made : State.Step State.new (.insert false) (State.new.next (.insert false)) :=
    ⟨⟨rfl, by simp [Op.disposed]⟩, rfl⟩
  have ended : State.Step (State.new.next (.insert false)) .disposeTransaction
      ((State.new.next (.insert false)).next .disposeTransaction) :=
    ⟨⟨rfl, by simp [Op.disposed]⟩, rfl⟩
  refine (deleted_once_iff (.snoc (.single made) ended) rfl (h := 0) (by decide)).mpr ?_
  simp [Op.disposed]

/-- A handle its caller disposed is deleted again with the transaction. -/
theorem deleted_twice :
    ¬ ∀ (ops : List Op) (s : State), Runs State.Step State.new ops s → s.gone = true →
      ∀ h < s.RS.length, s.DeletedOnce h := by
  intro claim
  have made : State.Step State.new (.insert false) (State.new.next (.insert false)) :=
    ⟨⟨rfl, by simp [Op.disposed]⟩, rfl⟩
  have disposed := Runs.snoc (Runs.single made)
    (show State.Step _ (.dispose 0) _ from ⟨⟨rfl, by simp [Op.disposed, State.next,
      CTransaction.insert, State.newResource, State.newHandle, State.new]⟩, rfl⟩)
  have ended := Runs.snoc disposed
    (show State.Step _ .disposeTransaction _ from ⟨⟨rfl, by simp [Op.disposed]⟩, rfl⟩)
  exact absurd (claim _ _ ended rfl 0 (by decide)).1 (by decide)

end Solusek.Ownership
