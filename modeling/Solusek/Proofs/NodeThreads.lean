import Solusek.Lib.Runs
import Solusek.Model.Server

/-!
# What a node thread still has to do

By whatever route a node's run goes, its thread pushes the node, removes it again and counts
down, in this order, and counting down is its last access to the server.
-/

namespace Solusek.Server

open Transition

/-- `pushNode` at most once and with `removeNode` behind it; only `countDown` behind
`removeNode`; nothing behind `countDown`. -/
def Ordered : List NodeStep → Prop
  | [] => True
  | step :: rest => Ordered rest ∧
    match step with
    | .pushNode => .pushNode ∉ rest ∧ .removeNode ∈ rest
    | .removeNode => rest = [.countDown]
    | .countDown => rest = []
    | _ => rest ≠ []

theorem run_ordered (r : Route) : Ordered (CNode.run r ++ [.countDown]) := by
  rcases r with ⟨_ | path, found, sent⟩
  · simp [CNode.run, Ordered]
  · by_cases empty : path.length > 0 <;> cases found <;> simp [CNode.run, Ordered, empty]

theorem pushNode_not_mem_run (r : Route) : NodeStep.pushNode ∉ CNode.run r := by
  rcases r with ⟨_ | path, found, sent⟩
  · simp [CNode.run]
  · by_cases empty : path.length > 0 <;> cases found <;> simp [CNode.run, empty]

theorem removeNode_mem_run (r : Route) : NodeStep.removeNode ∈ CNode.run r :=
  List.mem_append_right _ (List.mem_singleton_self _)

theorem runNode_ordered (r : Route) : Ordered (CServer.runNode r) := by
  simp [CServer.runNode, Ordered, run_ordered, pushNode_not_mem_run, removeNode_mem_run]

theorem pushNode_mem_runNode (r : Route) : NodeStep.pushNode ∈ CServer.runNode r := by
  simp [CServer.runNode]

theorem runNode_ne_nil (r : Route) : CServer.runNode r ≠ [] :=
  List.ne_nil_of_mem (pushNode_mem_runNode r)

/-! ### Steps of a thread -/

theorem thread_eq {s : State} {n : Nat} {t : Thread} {step : NodeStep} {rest : List NodeStep}
    (found : s.threads[n]? = some t) (todo : t.todo = step :: rest) :
    s.thread n =
      { s.nodeStep n t.socket step with threads := s.threads.set n { t with todo := rest } } := by
  obtain ⟨socket, ID, steps⟩ := t
  have same : steps = step :: rest := todo
  simp [State.thread, found, same]

theorem allowed_thread {s : State} {n : Nat} (allowed : s.Allowed (.thread n)) :
    ∃ t step rest, s.threads[n]? = some t ∧ t.todo = step :: rest ∧
      s.next (.thread n) =
        { s.nodeStep n t.socket step with threads := s.threads.set n { t with todo := rest } } := by
  obtain ⟨_, t, found, _, todo⟩ := allowed
  obtain ⟨step, rest, same⟩ := List.exists_cons_of_ne_nil todo
  exact ⟨t, step, rest, found, same, thread_eq found same⟩

namespace State

def todo (s : State) (n : Nat) : List NodeStep := (s.threads[n]?.map (·.todo)).getD []

end State

theorem todo_found {s : State} {n : Nat} {t : Thread} (found : s.threads[n]? = some t) :
    s.todo n = t.todo := by
  simp [State.todo, found]

theorem all_done_iff (s : State) : (∀ t ∈ s.threads, t.todo = []) ↔ ∀ n, s.todo n = [] := by
  constructor
  · intro done n
    cases found : s.threads[n]? with
    | none => simp [State.todo, found]
    | some t => rw [todo_found found, done t (List.mem_of_getElem? found)]
  · intro done t member
    obtain ⟨n, found⟩ := List.mem_iff_getElem?.mp member
    rw [← todo_found found, done n]

theorem todo_set {s u : State} {n : Nat} {t : Thread} {rest : List NodeStep}
    (found : s.threads[n]? = some t)
    (threads : u.threads = s.threads.set n { t with todo := rest }) (m : Nat) :
    u.todo m = if m = n then rest else s.todo m := by
  have bound : n < s.threads.length := (List.getElem?_eq_some_iff.mp found).1
  by_cases same : m = n
  · subst same
    simp [State.todo, threads, bound]
  · simp [State.todo, threads, same, List.getElem?_set_ne (Ne.symm same)]

theorem todo_create (s : State) (socket : Bool) (route : Route) (m : Nat) :
    (s.create socket (some route)).todo m =
      if m = s.threads.length then CServer.runNode route else s.todo m := by
  rcases Nat.lt_trichotomy m s.threads.length with below | rfl | above
  · simp [State.create, State.todo, List.getElem?_append_left below, Nat.ne_of_lt below]
  · simp [State.create, State.todo]
  · have missing : s.threads[m]? = none := List.getElem?_eq_none (Nat.le_of_lt above)
    have beyond : (s.threads.length + 1) ≤ m := above
    simp [State.create, State.todo, missing, Nat.ne_of_gt above, List.getElem?_eq_none, beyond]

theorem nodeStep_quiet {s : State} {n : Nat} {socket : Bool} {step : NodeStep}
    (notPush : .pushNode ≠ step) (notRemove : .removeNode ≠ step) :
    (s.nodeStep n socket step).Nodes = s.Nodes := by
  cases step with
  | newNode => cases socket <;> rfl
  | pushNode => exact absurd rfl notPush
  | removeNode => exact absurd rfl notRemove
  | _ => rfl

theorem nodeStep_loop (s : State) (n : Nat) (socket : Bool) (step : NodeStep) :
    (s.nodeStep n socket step).loop = s.loop := by
  cases step with
  | newNode => cases socket <;> rfl
  | _ => rfl

theorem loopNext_todo (s : State) (n : Nat) : s.loopNext.todo n = s.todo n := by
  unfold State.loopNext
  split <;> try rfl
  · split <;> rfl
  · split
    · split <;> rfl
    · rfl
  · simp only [State.todo, List.getElem?_modify]
    cases s.threads[n]? with
    | none => rfl
    | some t => simp only [Option.map_some, Option.map_eq_map]; split <;> rfl
  · split <;> rfl

theorem loopNext_nodes (s : State) : s.loopNext.Nodes = s.Nodes := by
  unfold State.loopNext
  split <;> try rfl
  · split <;> rfl
  · split
    · split <;> rfl
    · rfl
  · split <;> rfl

theorem loopNext_returned {s : State} (ends : s.loopNext.loop = .returned) :
    s.loop = .returned ∨ (s.loop = .draining ∧ s.Nodes = []) := by
  unfold State.loopNext at ends
  split at ends <;> rename_i at_loop
  · dsimp only at ends
    split at ends <;> cases ends
  · split at ends
    · exact Or.inl ends
    · cases ends
  · cases ends
  · split at ends
    · split at ends
      · cases ends
      · exact Or.inl ends
    · cases ends
  · cases ends
  · cases ends
  · cases ends
  · split at ends
    · exact Or.inl ends
    · rename_i empty
      exact Or.inr ⟨at_loop, List.length_eq_zero_iff.mp (by omega)⟩
  · exact Or.inl ends
  · exact Or.inl ends
  · exact Or.inl ends

/-! ### Nodes and threads -/

/-- What `Nodes` says of a thread: it has pushed its node and not removed it. -/
def Listed (todo : List NodeStep) : Prop := .pushNode ∉ todo ∧ .removeNode ∈ todo

structure Registered (s : State) : Prop where
  ordered : ∀ n, Ordered (s.todo n)
  nodes : ∀ n, n ∈ s.Nodes ↔ Listed (s.todo n)
  once : s.Nodes.Nodup

theorem start_registered (limit : UInt32) : Registered (State.start limit) := by
  constructor <;> simp [State.start, State.todo, Ordered, Listed]

theorem nodeStep_nodes {s : State} {n : Nat} {step : NodeStep} {rest : List NodeStep}
    (socket : Bool) (registered : Registered s) (todo : s.todo n = step :: rest) :
    (s.nodeStep n socket step).Nodes.Nodup ∧
    ∀ m, m ∈ (s.nodeStep n socket step).Nodes ↔ if m = n then Listed rest else m ∈ s.Nodes := by
  obtain ⟨ordered, nodes, once⟩ := registered
  have order := ordered n
  have known := nodes n
  rw [todo] at order known
  by_cases push : .pushNode = step
  · subst push
    have absent : n ∉ s.Nodes := by
      rw [known]
      exact fun listed => listed.1 List.mem_cons_self
    refine ⟨List.nodup_append.mpr ⟨once, by simp, ?_⟩, ?_⟩
    · intro a old b single same
      have equal : b = n := List.mem_singleton.mp single
      exact absent (equal ▸ same ▸ old)
    · intro m
      by_cases same : m = n
      · simpa [State.nodeStep, same, Listed] using order.2
      · simp [State.nodeStep, same]
  by_cases remove : .removeNode = step
  · subst remove
    refine ⟨once.erase n, ?_⟩
    intro m
    have last : rest = [.countDown] := order.2
    by_cases same : m = n
    · simp [State.nodeStep, same, Listed, last, once.not_mem_erase]
    · simp [State.nodeStep, same, List.mem_erase_of_ne same]
  · rw [nodeStep_quiet push remove]
    refine ⟨once, fun m => ?_⟩
    split
    · rename_i same
      rw [same, known]
      simp [Listed, push, remove]
    · rfl

theorem thread_registered {s : State} {n : Nat} (registered : Registered s)
    (allowed : s.Allowed (.thread n)) : Registered (s.next (.thread n)) := by
  obtain ⟨t, step, rest, found, same, next⟩ := allowed_thread allowed
  have todo : s.todo n = step :: rest := (todo_found found).trans same
  obtain ⟨once, nodes⟩ := nodeStep_nodes t.socket registered todo
  have after := todo_set found (u := s.next (.thread n)) (by rw [next])
  constructor
  · intro m
    rw [after]
    split
    · have order := registered.ordered n
      rw [todo] at order
      exact order.1
    · exact registered.ordered m
  · intro m
    rw [after, next]
    dsimp only
    rw [nodes]
    split
    · rfl
    · exact registered.nodes m
  · rw [next]
    exact once

theorem create_registered {s : State} (registered : Registered s) (socket : Bool)
    (route : Option Route) : Registered (s.create socket route) := by
  cases route with
  | none => exact ⟨registered.ordered, registered.nodes, registered.once⟩
  | some route =>
    refine ⟨?_, ?_, registered.once⟩
    · intro n
      rw [todo_create]
      split
      · exact runNode_ordered route
      · exact registered.ordered n
    · intro n
      rw [todo_create]
      split
      · rename_i same
        -- the new thread's number is in no list yet
        have unused : s.todo n = [] := by simp [State.todo, same]
        have absent : ¬ n ∈ s.Nodes := by simp [registered.nodes, unused, Listed]
        exact iff_of_false absent fun listed => listed.1 (pushNode_mem_runNode route)
      · exact registered.nodes n

theorem step_registered {s u : State} {a : Action} (registered : Registered s)
    (taken : State.Step s a u) : Registered u := by
  obtain ⟨allowed, rfl⟩ := taken
  cases a with
  | stop => exact ⟨registered.ordered, registered.nodes, registered.once⟩
  | loop =>
    obtain ⟨ordered, nodes, once⟩ := registered
    refine ⟨?_, ?_, ?_⟩
    · intro n
      rw [State.next, loopNext_todo]
      exact ordered n
    · intro n
      rw [State.next, loopNext_todo, loopNext_nodes]
      exact nodes n
    · rw [State.next, loopNext_nodes]
      exact once
  | accept socket => exact ⟨registered.ordered, registered.nodes, registered.once⟩
  | create route =>
    obtain ⟨socket, creating⟩ := allowed.2.1
    rw [State.next, creating]
    exact create_registered registered socket route
  | thread n => exact thread_registered registered allowed

/-! ### The threads that serve -/

/-- A thread's step leaves it serving, unless it was its last. -/
theorem served_set {s u : State} {n : Nat} {t : Thread} {step : NodeStep} {rest : List NodeStep}
    (found : s.threads[n]? = some t) (todo : t.todo = step :: rest)
    (threads : u.threads = s.threads.set n { t with todo := rest }) :
    u.served + (if rest = [] then 1 else 0) = s.served := by
  obtain ⟨bound, here⟩ := List.getElem?_eq_some_iff.mp found
  have counted : 0 < s.served :=
    List.countP_pos_iff.mpr ⟨t, List.mem_of_getElem? found, by simp [todo]⟩
  have changed : u.served = s.served - 1 + if rest = [] then 0 else 1 := by
    rw [State.served, State.served, threads, List.countP_set bound, here]
    simp [todo]
  rw [changed]
  split <;> omega

theorem served_create (s : State) (socket : Bool) (route : Route) :
    (s.create socket (some route)).served = s.served + 1 := by
  simp [State.create, State.served, List.countP_append, runNode_ne_nil]

theorem countP_modify {α : Type*} {p : α → Bool} {f : α → α} (same : ∀ a, p (f a) = p a)
    (l : List α) (n : Nat) : (l.modify n f).countP p = l.countP p := by
  induction l generalizing n with
  | nil => simp
  | cons a l ih =>
    cases n with
    | zero => simp [List.countP_cons, same]
    | succ n => simp [List.countP_cons, ih]

theorem loopNext_served (s : State) : s.loopNext.served = s.served := by
  unfold State.loopNext
  split <;> try rfl
  · split <;> rfl
  · split
    · split <;> rfl
    · rfl
  · exact countP_modify (f := fun t : Thread => { t with ID := true }) (fun _ => rfl) _ _
  · split <;> rfl

/-! ### The counter -/

theorem nodeStep_count (s : State) (n : Nat) (socket : Bool) (step : NodeStep) :
    (s.nodeStep n socket step).ThreadCount =
      if step = .countDown then s.ThreadCount - 1 else s.ThreadCount := by
  cases step with
  | newNode => cases socket <;> rfl
  | _ => rfl

theorem count_up {c : UInt32} (room : c.toNat + 1 < 2 ^ 32) : (c + 1).toNat = c.toNat + 1 := by
  rw [UInt32.toNat_add]
  exact Nat.mod_eq_of_lt room

theorem count_down {c : UInt32} (positive : 0 < c.toNat) : (c - 1).toNat = c.toNat - 1 :=
  UInt32.toNat_sub_of_le _ _ positive

/-! ### A run -/

/-- A request whose header is malformed. -/
def malformed : Route := { header := .error .exception, found := .missing, sent := false }

/-- A connection is accepted and its thread created. -/
def oneThread : List Action :=
  [.loop, .loop, .accept true, .loop, .loop, .create (some malformed), .loop]

end Solusek.Server
