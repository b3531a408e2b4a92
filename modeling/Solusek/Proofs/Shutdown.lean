import Solusek.Proofs.NodeThreads

/-!
# The end of `run`

`run` waits until `Nodes` is empty. A thread is in `Nodes` from its `pushNode` to its
`removeNode`, but it is a user of the server before the first and after the second. `run`
returns behind all threads if it finds `Nodes` empty while no thread is in these windows.
-/

namespace Solusek.Server

open Transition

/-- Every thread that `run` created has made its last access to the server. -/
def State.Released (s : State) : Prop := ∀ t ∈ s.threads, t.todo = []

/-- The thread has yet to push its node, or has removed it and has yet to count down. -/
def Unlisted (todo : List NodeStep) : Prop :=
  .pushNode ∈ todo ∨ (.removeNode ∉ todo ∧ todo ≠ [])

/-- Where `run` is about to find `Nodes` empty, no thread is in one of the windows. -/
def State.WaitedFor (s : State) : Action → Prop
  | .loop => s.loop = .draining → s.Nodes = [] → ∀ t ∈ s.threads, ¬ Unlisted t.todo
  | _ => True

/-! ### The return -/

theorem released_iff {s : State} (registered : Registered s) (empty : s.Nodes = []) :
    s.Released ↔ ∀ t ∈ s.threads, ¬ Unlisted t.todo := by
  constructor
  · intro released t member
    simp [Unlisted, released t member]
  · intro outside t member
    obtain ⟨n, found⟩ := List.mem_iff_getElem?.mp member
    have absent : n ∉ s.Nodes := by simp [empty]
    rw [registered.nodes, todo_found found] at absent
    have clear := outside t member
    simp only [Unlisted, not_or, not_and, not_not] at clear
    by_contra busy
    obtain ⟨pushed, removed⟩ := clear
    by_cases listed : .removeNode ∈ t.todo
    · exact absent ⟨pushed, listed⟩
    · exact busy (removed listed)

theorem step_released {s u : State} {a : Action} (registered : Registered s)
    (released : s.loop = .returned → s.Released) (taken : Guarded State.WaitedFor State.Step s a u) :
    u.loop = .returned → u.Released := by
  obtain ⟨waited, allowed, rfl⟩ := taken
  intro ends
  cases a with
  | stop => exact released ends
  | loop =>
    have same : (s.next .loop).Released ↔ s.Released := by
      simp only [State.Released, all_done_iff, State.next, loopNext_todo]
    rw [same]
    rcases loopNext_returned ends with ended | ⟨draining, empty⟩
    · exact released ended
    · exact (released_iff registered empty).mpr (waited draining empty)
  | accept socket => cases ends
  | create route =>
    obtain ⟨socket, creating⟩ := allowed.2.1
    rw [State.next, creating] at ends
    cases route <;> cases ends
  | thread n =>
    obtain ⟨t, step, rest, found, todo, next⟩ := allowed_thread allowed
    have before : s.loop = .returned := by
      rw [next] at ends
      exact (nodeStep_loop s n t.socket step).symm.trans ends
    have done := released before t (List.mem_of_getElem? found)
    rw [done] at todo
    cases todo

/-- In a run whose wait never ends while a thread is in one of the windows, all threads are
done with the server when `run` has returned. And in any run, a wait that ends is followed by
this state exactly if it ends outside the windows. -/
theorem returned_released {limit : UInt32} {as : List Action} {s : State}
    (run : Runs (Guarded State.WaitedFor State.Step) (State.start limit) as s) :
    (s.loop = .returned → s.Released) ∧
    ∀ (bs : List Action) (u : State), Runs State.Step (State.start limit) bs u →
      u.loop = .draining → u.Nodes = [] → ((u.next .loop).Released ↔ u.WaitedFor .loop) := by
  constructor
  · have both : Registered s ∧ (s.loop = .returned → s.Released) := by
      refine run.invariant (P := fun s => Registered s ∧ (s.loop = .returned → s.Released))
        ⟨start_registered limit, fun ends => by cases ends⟩ ?_
      intro s a u holds taken
      exact ⟨step_registered holds.1 taken.2, step_released holds.1 holds.2 taken⟩
    exact both.2
  · intro bs u reached draining empty
    have registered : Registered u := reached.invariant (start_registered limit) step_registered
    have same : (u.next .loop).Released ↔ u.Released := by
      simp only [State.Released, all_done_iff, State.next, loopNext_todo]
    rw [same, released_iff registered empty]
    exact ⟨fun outside _ _ => outside, fun waited => waited draining empty⟩

def stopNow : List Action := [.stop, .loop, .loop, .loop]

/-- The thread does all it has to do before `stop()` is called. -/
theorem returned_released_sample :
    ((oneThread ++ List.replicate 6 (Action.thread 0) ++ stopNow).foldl State.next
      (State.start 25)).Released := by
  have follows : Follows (fun s a => State.WaitedFor s a ∧ State.Allowed s a) State.next
      (State.start 25) (oneThread ++ List.replicate 6 (Action.thread 0) ++ stopNow) := by
    simp [oneThread, stopNow, Follows, State.Allowed, State.next, State.start, State.stop,
      State.loopNext, State.accept, State.create, State.served, State.thread, State.WaitedFor,
      State.nodeStep, CServer.runNode, CNode.run, malformed, Unlisted]
  exact (returned_released follows.guarded).1 rfl

/-- `stop()` is called before the new thread has pushed its node. -/
theorem returned_early :
    ¬ ∀ (limit : UInt32) (as : List Action) (s : State),
      Runs State.Step (State.start limit) as s → s.loop = .returned → s.Released := by
  intro claim
  have follows : Follows State.Allowed State.next (State.start 25)
      (oneThread ++ stopNow) := by
    simp [oneThread, stopNow, Follows, State.Allowed, State.next, State.start, State.stop,
      State.loopNext, State.accept, State.create, State.served]
  have released := claim 25 _ _ follows.runs rfl
  have done := released ⟨true, true, CServer.runNode malformed⟩ List.mem_cons_self
  exact runNode_ne_nil malformed done

end Solusek.Server
