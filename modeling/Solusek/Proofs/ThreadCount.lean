import Solusek.Proofs.NodeThreads

/-!
# The thread limit

The loop tests `ThreadCount > ThreadLimit` before it waits for a connection, and counts the
connection afterwards. So `ThreadLimit + 1` connections are served where the test is passed
with `ThreadCount = ThreadLimit`.
-/

namespace Solusek.Server

open Transition

namespace Loop

/-- The loop has counted a connection that has no thread yet. -/
def pending : Loop → Nat
  | .counted _ | .creating _ => 1
  | _ => 0

/-- The loop has passed the test for a connection it has yet to count. -/
def passed : Loop → Nat
  | .accepting | .accepted _ => 1
  | _ => 0

/-- The loop has been left. -/
def left : Loop → Bool
  | .closing | .draining | .returned => true
  | _ => false

end Loop

/-! ### One access of the loop -/

/-- Passing the test and counting apart, an access changes none of the numbers but where it
gives up the loop. -/
theorem loopNext_cases (s : State) :
    (s.loopNext.ThreadCount = s.ThreadCount ∧ s.loopNext.loop.passed ≤ s.loop.passed ∧
      s.loopNext.loop.pending ≤ s.loop.pending ∧
      (s.loopNext.loop.left = false →
        s.loopNext.loop.pending = s.loop.pending ∧ s.loop.left = false)) ∨
    (s.loop = .limit ∧ s.ThreadCount ≤ s.ThreadLimit ∧
      s.loopNext = { s with loop := .accepting }) ∨
    ∃ socket, s.loop = .accepted socket ∧
      s.loopNext = { s with ThreadCount := s.ThreadCount + 1, loop := .counted socket } := by
  unfold State.loopNext
  split <;> rename_i at_loop
  · cases s.StopSignal <;> simp [at_loop, Loop.passed, Loop.pending, Loop.left]
  · by_cases full : s.ThreadCount > s.ThreadLimit
    · simp [at_loop, full, Loop.left]
    · simp only [full, if_false]
      exact Or.inr (Or.inl ⟨at_loop, UInt32.not_lt.mp full, trivial⟩)
  · simp [at_loop]
  · cases s.StopSignal
    · simp [at_loop, Loop.passed, Loop.pending, Loop.left]
    · rename_i socket
      cases socket <;> simp [at_loop, Loop.passed, Loop.pending, Loop.left]
  · simp [at_loop, Loop.passed, Loop.pending, Loop.left]
  · simp [at_loop, Loop.passed, Loop.pending, Loop.left]
  · simp [at_loop, Loop.passed, Loop.pending, Loop.left]
  · by_cases waiting : s.Nodes.length > 0 <;>
      simp [at_loop, waiting, Loop.passed, Loop.pending, Loop.left]
  · simp [at_loop, Loop.left]
  · simp [at_loop, Loop.left]
  · simp [at_loop, Loop.left]

theorem loopNext_limit (s : State) : s.loopNext.ThreadLimit = s.ThreadLimit := by
  unfold State.loopNext
  split <;> try rfl
  · split <;> rfl
  · split
    · split <;> rfl
    · rfl
  · split <;> rfl

theorem nodeStep_limit (s : State) (n : Nat) (socket : Bool) (step : NodeStep) :
    (s.nodeStep n socket step).ThreadLimit = s.ThreadLimit := by
  cases step with
  | newNode => cases socket <;> rfl
  | _ => rfl

theorem ordered_last {step : NodeStep} {rest : List NodeStep} (ordered : Ordered (step :: rest)) :
    step = .countDown ↔ rest = [] := by
  have order := ordered.2
  cases step <;> simp_all
  exact List.ne_nil_of_mem order.2

theorem thread_count {s : State} {n : Nat} (registered : Registered s)
    (allowed : s.Allowed (.thread n)) :
    (s.next (.thread n)).loop = s.loop ∧ (s.next (.thread n)).ThreadLimit = s.ThreadLimit ∧
    (((s.next (.thread n)).served = s.served ∧
        (s.next (.thread n)).ThreadCount = s.ThreadCount) ∨
      ((s.next (.thread n)).served + 1 = s.served ∧
        (s.next (.thread n)).ThreadCount = s.ThreadCount - 1)) := by
  obtain ⟨t, step, rest, found, todo, next⟩ := allowed_thread allowed
  have order := registered.ordered n
  rw [todo_found found, todo] at order
  have last := ordered_last order
  have serving := served_set found todo (u := s.next (.thread n)) (by rw [next])
  have count : (s.next (.thread n)).ThreadCount = (s.nodeStep n t.socket step).ThreadCount := by
    rw [next]
  rw [nodeStep_count] at count
  refine ⟨?_, ?_, ?_⟩
  · rw [next]
    exact nodeStep_loop s n t.socket step
  · rw [next]
    exact nodeStep_limit s n t.socket step
  · by_cases done : rest = []
    · rw [if_pos done] at serving
      rw [if_pos (last.mpr done)] at count
      exact Or.inr ⟨serving, count⟩
    · rw [if_neg done] at serving
      rw [if_neg fun ends => done (last.mp ends)] at count
      exact Or.inl ⟨serving, count⟩

/-! ### The limit -/

/-- The wait test is not made while `ThreadCount` is exactly the limit. -/
def State.BelowLimit (s : State) : Action → Prop
  | .loop => s.loop = .limit → s.ThreadCount ≠ s.ThreadLimit
  | _ => True

/-- Served connections are counted, and the count leaves room for one that is on its way. -/
structure Bounded (limit : UInt32) (s : State) : Prop where
  served : s.served + s.loop.pending ≤ s.ThreadCount.toNat
  count : s.ThreadCount.toNat + s.loop.passed ≤ limit.toNat
  limit : s.ThreadLimit = limit

theorem start_bounded (limit : UInt32) : Bounded limit (State.start limit) := by
  constructor <;> simp [State.start, State.served, Loop.pending, Loop.passed]

theorem loop_bounded {limit : UInt32} {s : State} (bounded : Bounded limit s)
    (below : s.BelowLimit .loop) : Bounded limit s.loopNext := by
  obtain ⟨served, count, same⟩ := bounded
  rcases loopNext_cases s with ⟨kept, passed, pending, _⟩ | ⟨at_limit, test, next⟩ |
    ⟨socket, accepted, next⟩
  · refine ⟨?_, ?_, (loopNext_limit s).trans same⟩
    · rw [loopNext_served, kept]
      omega
    · rw [kept]
      omega
  · -- the test is passed: with equality excluded, there is room for one more
    have different : s.ThreadCount.toNat ≠ s.ThreadLimit.toNat := fun equal =>
      below at_limit (UInt32.toNat_inj.mp equal)
    have least : s.ThreadCount.toNat ≤ s.ThreadLimit.toNat := test
    rw [same] at different least
    rw [next]
    refine ⟨?_, ?_, same⟩
    · exact (Nat.le_add_right _ _).trans served
    · show s.ThreadCount.toNat + 1 ≤ limit.toNat
      omega
  · rw [accepted] at served count
    simp only [Loop.pending, Loop.passed] at served count
    have top := limit.toNat_lt
    rw [next]
    refine ⟨?_, ?_, same⟩
    · show s.served + 1 ≤ (s.ThreadCount + 1).toNat
      rw [count_up (by omega)]
      omega
    · show (s.ThreadCount + 1).toNat + 0 ≤ limit.toNat
      rw [count_up (by omega)]
      omega

theorem create_bounded {limit : UInt32} {s : State} {socket : Bool} (bounded : Bounded limit s)
    (creating : s.loop = .creating socket) (route : Option Route) :
    Bounded limit (s.create socket route) := by
  obtain ⟨served, count, same⟩ := bounded
  rw [creating] at served count
  cases route with
  | none => exact ⟨(Nat.le_add_right _ _).trans served, count, same⟩
  | some route =>
    refine ⟨?_, count, same⟩
    rw [served_create]
    exact served

theorem step_bounded {limit : UInt32} {s u : State} {a : Action} (registered : Registered s)
    (bounded : Bounded limit s) (taken : Guarded State.BelowLimit State.Step s a u) :
    Bounded limit u := by
  obtain ⟨below, allowed, rfl⟩ := taken
  cases a with
  | stop => exact ⟨bounded.served, bounded.count, bounded.limit⟩
  | loop => exact loop_bounded bounded below
  | accept socket =>
    have accepting : s.loop = .accepting := allowed.2
    obtain ⟨served, count, same⟩ := bounded
    rw [accepting] at served count
    exact ⟨served, count, same⟩
  | create route =>
    obtain ⟨socket, creating⟩ := allowed.2.1
    rw [State.next, creating]
    exact create_bounded bounded creating route
  | thread n =>
    obtain ⟨served, count, same⟩ := bounded
    obtain ⟨loop, limit_kept, changes⟩ := thread_count registered allowed
    rcases changes with ⟨serving, counter⟩ | ⟨serving, counter⟩
    · refine ⟨?_, ?_, limit_kept.trans same⟩
      · rw [serving, counter, loop]
        exact served
      · rw [counter, loop]
        exact count
    · have positive : 0 < s.ThreadCount.toNat := by omega
      refine ⟨?_, ?_, limit_kept.trans same⟩
      · rw [counter, count_down positive, loop]
        omega
      · rw [counter, count_down positive, loop]
        omega

/-- Where the loop makes its test with as many connections served as the limit allows, it can
go on to serve one more. -/
theorem one_more {s : State} (at_limit : s.loop = .limit) (running : s.StopSignal = false)
    (defined : s.undefined = false) (full : s.ThreadCount = s.ThreadLimit)
    (few : s.served + 1 < 2 ^ 32) :
    ∃ as u, Runs State.Step s as u ∧ u.served = s.served + 1 := by
  refine ⟨[.loop, .accept true, .loop, .loop, .create (some malformed)], _, Follows.runs ?_, ?_⟩
  · simp [Follows, State.Allowed, State.next, State.loopNext, State.accept, at_limit, running,
      defined, full, State.served] at few ⊢
    exact few
  · simp [State.next, State.loopNext, State.accept, at_limit, running, full, State.create,
      State.served, List.countP_append, runNode_ne_nil]

/-- In a run that never makes the wait test with `ThreadCount` equal to the limit, no more
connections are served at the same time than the limit says. A test made there with that many
served can be followed by serving one more. -/
theorem thread_limit {limit : UInt32} {as : List Action} {s : State}
    (run : Runs (Guarded State.BelowLimit State.Step) (State.start limit) as s) :
    s.served ≤ limit.toNat ∧
    ∀ u : State, u.loop = .limit → ¬ u.BelowLimit .loop → u.StopSignal = false →
      u.undefined = false → u.served + 1 < 2 ^ 32 →
      ∃ bs v, Runs State.Step u bs v ∧ v.served = u.served + 1 := by
  constructor
  · have both : Registered s ∧ Bounded limit s := by
      refine run.invariant (P := fun s => Registered s ∧ Bounded limit s)
        ⟨start_registered limit, start_bounded limit⟩ ?_
      intro s a u holds taken
      exact ⟨step_registered holds.1 taken.2, step_bounded holds.1 holds.2 taken⟩
    have counted := both.2.served
    have bound := both.2.count
    omega
  · intro u at_limit at_equal running defined few
    have full : u.ThreadCount = u.ThreadLimit := by
      by_contra different
      exact at_equal fun _ => different
    exact one_more at_limit running defined full few

/-- The only thread there is goes all its way. -/
def oneEnd : List Action := List.replicate 6 (.thread 0)

/-- One connection after another where one is allowed. -/
theorem thread_limit_one :
    ((oneThread ++ oneEnd ++ oneThread).foldl State.next (State.start 1)).served ≤ 1 := by
  have follows : Follows (fun s a => State.BelowLimit s a ∧ State.Allowed s a) State.next
      (State.start 1) (oneThread ++ oneEnd ++ oneThread) := by
    simp [oneThread, oneEnd, Follows, State.Allowed, State.next, State.start, State.loopNext,
      State.accept, State.create, State.served, State.BelowLimit, State.thread, State.nodeStep,
      CServer.runNode, CNode.run, malformed]
  exact (thread_limit follows.guarded).1

/-- Two connections where one is allowed. -/
theorem thread_limit_passed :
    ¬ ∀ (limit : UInt32) (as : List Action) (s : State), 1 ≤ limit →
      Runs State.Step (State.start limit) as s → s.served ≤ limit.toNat := by
  intro claim
  have follows : Follows State.Allowed State.next (State.start 1) (oneThread ++ oneThread) := by
    simp [oneThread, Follows, State.Allowed, State.next, State.start, State.loopNext,
      State.accept, State.create, State.served, runNode_ne_nil]
  have bound := claim 1 _ _ (by decide) follows.runs
  simp [oneThread, State.next, State.start, State.loopNext, State.accept, State.create,
    State.served, runNode_ne_nil] at bound

end Solusek.Server
