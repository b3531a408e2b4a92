import Solusek.Model.ServerAccesses
import Solusek.Proofs.ThreadCount

/-!
# The count of the threads

Back at its head the loop finds as many counted as there are threads that have not finished, but
for the counts whose thread was never made; and as long as no two changes of `ThreadCount` or
`Nodes` overlap: of two decrements that do, one is lost.
-/

namespace Solusek.Server

open Transition

/-! ### The count and the threads -/

/-- `TH.create` returns an error code. -/
def Action.failed : Action → Bool
  | .create none => true
  | _ => false

/-- `accept` refuses an address. -/
def Action.refused : Action → Bool
  | .accept false => true
  | _ => false

def failures (as : List Action) : Nat := as.countP Action.failed

theorem failures_snoc (as : List Action) (a : Action) :
    failures (as ++ [a]) = failures as + if a.failed then 1 else 0 := by
  simp [failures, List.countP_append, List.countP_singleton]

/-- As long as the loop runs, each count is for a thread that serves, for the connection the
loop has in hand, or for a thread that could not be made. -/
structure Balanced (as : List Action) (s : State) : Prop where
  counted : s.loop.left = false →
    s.ThreadCount.toNat = (s.served + s.loop.pending + failures as) % 2 ^ 32
  few : s.served < 2 ^ 32

theorem start_balanced (limit : UInt32) : Balanced [] (State.start limit) := by
  constructor <;> simp [State.start, State.served, Loop.pending, failures]

theorem loop_balanced {as : List Action} {s : State} (balanced : Balanced as s) :
    Balanced as s.loopNext := by
  obtain ⟨counted, few⟩ := balanced
  refine ⟨?_, by rwa [loopNext_served]⟩
  intro inside
  rcases loopNext_cases s with ⟨kept, _, _, same⟩ | ⟨at_limit, _, next⟩ | ⟨socket, accepted, next⟩
  · obtain ⟨pending, before⟩ := same inside
    rw [loopNext_served, kept, pending]
    exact counted before
  · rw [at_limit] at counted
    rw [next]
    exact counted rfl
  · rw [accepted] at counted
    have before := counted rfl
    rw [next]
    show (s.ThreadCount + 1).toNat = (s.served + 1 + failures as) % 2 ^ 32
    simp only [Loop.pending] at before
    rw [UInt32.toNat_add, before]
    simp only [UInt32.toNat_one]
    omega

theorem step_balanced {as : List Action} {s u : State} {a : Action} (registered : Registered s)
    (balanced : Balanced as s) (taken : State.Step s a u) : Balanced (as ++ [a]) u := by
  obtain ⟨allowed, rfl⟩ := taken
  have failed := failures_snoc as a
  cases a with
  | stop =>
    refine ⟨?_, balanced.few⟩
    rw [failed]
    exact balanced.counted
  | loop =>
    obtain ⟨counted, few⟩ := loop_balanced balanced
    refine ⟨?_, few⟩
    rw [failed]
    exact counted
  | accept socket =>
    obtain ⟨counted, few⟩ := balanced
    have accepting : s.loop = .accepting := allowed.2
    rw [accepting] at counted
    have before := counted rfl
    refine ⟨fun _ => ?_, few⟩
    rw [failed]
    cases socket <;> exact before
  | create route =>
    obtain ⟨counted, few⟩ := balanced
    obtain ⟨⟨socket, creating⟩, room⟩ := allowed.2
    rw [creating] at counted
    have before := counted rfl
    rw [State.next, creating]
    cases route with
    | none =>
      refine ⟨fun _ => ?_, few⟩
      rw [failed]
      show s.ThreadCount.toNat = (s.served + 0 + (failures as + 1)) % 2 ^ 32
      rw [before, Loop.pending]
      congr 1
      omega
    | some route =>
      have more := served_create s socket route
      refine ⟨fun _ => ?_, ?_⟩
      · rw [failed, more]
        exact before
      · rw [more]
        exact room rfl
  | thread n =>
    obtain ⟨counted, few⟩ := balanced
    obtain ⟨loop, _, changes⟩ := thread_count registered allowed
    refine ⟨fun inside => ?_, by omega⟩
    rw [loop] at inside ⊢
    have before := counted inside
    rw [failed]
    rcases changes with ⟨serving, counter⟩ | ⟨serving, counter⟩
    · rw [serving, counter]
      exact before
    · rw [counter, UInt32.toNat_sub, before, ← serving]
      simp only [UInt32.toNat_one, Action.failed, Bool.false_eq_true, if_false]
      omega

theorem run_balanced {limit : UInt32} {as : List Action} {s : State}
    (run : Runs State.Step (State.start limit) as s) : Registered s ∧ Balanced as s := by
  induction run with
  | nil => exact ⟨start_registered limit, start_balanced limit⟩
  | snoc _ last ih => exact ⟨step_registered ih.1 last, step_balanced ih.1 ih.2 last⟩

/-! ### Null sockets -/

def Loop.null : Loop → Bool
  | .accepted false | .counted false | .creating false => true
  | _ => false

/-- No null socket is about, and none has been used. -/
structure Sound (s : State) : Prop where
  defined : s.undefined = false
  threads : ∀ t ∈ s.threads, t.socket = true
  loop : s.loop.null = false

theorem loop_sound {s : State} (sound : Sound s) : Sound s.loopNext := by
  obtain ⟨defined, threads, loop⟩ := sound
  unfold State.loopNext
  split <;> rename_i at_loop
  · refine ⟨defined, threads, ?_⟩
    cases h : s.StopSignal <;> rfl
  · split
    · exact ⟨defined, threads, loop⟩
    · exact ⟨defined, threads, rfl⟩
  · rename_i socket
    rw [at_loop] at loop
    cases socket with
    | false => cases loop
    | true => exact ⟨defined, threads, rfl⟩
  · rename_i socket
    rw [at_loop] at loop
    cases socket with
    | false => cases loop
    | true =>
      split
      · exact ⟨defined, threads, rfl⟩
      · exact ⟨defined, threads, rfl⟩
  · refine ⟨defined, ?_, rfl⟩
    intro t member
    obtain ⟨n, found⟩ := List.mem_iff_getElem?.mp member
    simp only [List.getElem?_modify, Option.map_eq_map, Option.map_eq_some_iff] at found
    obtain ⟨t', old, rfl⟩ := found
    have before := threads t' (List.mem_of_getElem? old)
    split <;> exact before
  · exact ⟨defined, threads, rfl⟩
  · exact ⟨defined, threads, rfl⟩
  · split
    · exact ⟨defined, threads, loop⟩
    · exact ⟨defined, threads, rfl⟩
  · exact ⟨defined, threads, loop⟩
  · exact ⟨defined, threads, loop⟩
  · exact ⟨defined, threads, loop⟩

theorem nodeStep_sound {s : State} (n : Nat) (step : NodeStep) :
    (s.nodeStep n true step).undefined = s.undefined ∧
      (s.nodeStep n true step).loop = s.loop := by
  cases step <;> exact ⟨rfl, rfl⟩

theorem step_sound {s u : State} {a : Action} (sound : Sound s) (taken : State.Step s a u)
    (received : a.refused = false) : Sound u := by
  obtain ⟨allowed, rfl⟩ := taken
  obtain ⟨defined, threads, loop⟩ := sound
  cases a with
  | stop => exact ⟨defined, threads, loop⟩
  | loop => exact loop_sound ⟨defined, threads, loop⟩
  | accept socket =>
    cases socket with
    | false => cases received
    | true => exact ⟨defined, threads, rfl⟩
  | create route =>
    obtain ⟨socket, creating⟩ := allowed.2.1
    rw [creating] at loop
    rw [State.next, creating]
    cases route with
    | none => exact ⟨defined, threads, rfl⟩
    | some route =>
      refine ⟨defined, ?_, rfl⟩
      intro t member
      rcases List.mem_append.mp member with old | made
      · exact threads t old
      · rw [List.mem_singleton.mp made]
        cases socket with
        | false => cases loop
        | true => rfl
  | thread n =>
    obtain ⟨t, step, rest, found, _, next⟩ := allowed_thread allowed
    have real := threads t (List.mem_of_getElem? found)
    obtain ⟨same, stays⟩ := nodeStep_sound (s := s) n step
    rw [next, real]
    refine ⟨same.trans defined, ?_, (congrArg Loop.null stays).trans loop⟩
    intro t' member
    rcases List.mem_or_eq_of_mem_set member with old | rfl
    · exact threads t' old
    · rfl

theorem run_sound {limit : UInt32} {as : List Action} {s : State}
    (run : Runs State.Step (State.start limit) as s) (received : ∀ a ∈ as, a.refused = false) :
    Sound s := by
  induction run with
  | nil => exact ⟨rfl, by simp [State.start], rfl⟩
  | snoc _ last ih =>
    have before := ih fun a member => received a (List.mem_append_left _ member)
    exact step_sound before last (received _ (List.mem_append_right _ (List.mem_singleton_self _)))

/-- In a run in which each of its changes is one step, every failed `TH.create` stays counted. -/
theorem head_count {limit : UInt32} {as : List Action} {s : State}
    (run : Runs State.Step (State.start limit) as s) (at_head : s.loop = .head) :
    s.ThreadCount.toNat = s.served ↔ failures as % 2 ^ 32 = 0 := by
  obtain ⟨_, counted, few⟩ := run_balanced run
  rw [at_head] at counted
  have count := counted rfl
  simp only [Loop.pending, Nat.add_zero] at count
  rw [count]
  omega

/-! ### Changes that do not overlap -/

namespace Parted

/-- No change begins while the same variable is being changed, and the size of `Nodes` is not read
while it is. -/
def State.Apart (s : State) : Move → Prop
  | .whole a => s.readsNodes a = true → nodesChange s.changes = false
  | .begins actor => ∀ c ∈ s.changes, changed s.server actor.action ≠ some c.target
  | .ends _ => True

/-- The steps that the moves are where each change is one step. -/
def Move.actions : Move → List Action
  | .whole a => [a]
  | .begins _ => []
  | .ends change => [change.actor.action]

/-- No two changes of one variable have begun, and the counter is still what one has read. -/
structure Orderly (s : State) : Prop where
  single : (s.changes.map Change.target).Nodup
  read : ∀ c ∈ s.changes, c.target = .ThreadCount → c.read = s.server.ThreadCount

theorem changed_count {s : Server.State} {a : Action} (other : changed s a ≠ some .ThreadCount) :
    (s.next a).ThreadCount = s.ThreadCount := by
  cases a with
  | stop => rfl
  | accept socket => rfl
  | loop =>
    rcases loopNext_cases s with ⟨kept, _⟩ | ⟨_, _, next⟩ | ⟨socket, accepted, _⟩
    · exact kept
    · rw [Server.State.next, next]
    · exact absurd (by simp [changed, accepted]) other
  | create route =>
    simp only [Server.State.next]
    split
    · cases route <;> rfl
    · rfl
  | thread n =>
    show (s.thread n).ThreadCount = s.ThreadCount
    unfold Server.State.thread
    split
    · rename_i socket ID step rest found
      show (s.nodeStep n socket step).ThreadCount = s.ThreadCount
      rw [nodeStep_count, if_neg]
      rintro rfl
      exact other (by simp [changed, found])
    · rfl

theorem nodesChange_erase {changes : List Change} (single : (changes.map Change.target).Nodup)
    {change : Change} (member : change ∈ changes) :
    ∀ c ∈ changes.erase change, c.target ≠ change.target := by
  intro c remains same
  have distinct : changes.Nodup := single.of_map _
  obtain ⟨different, inside⟩ := distinct.mem_erase_iff.mp remains
  exact different (List.inj_on_of_nodup_map single inside member same)

theorem State.written_eq {s : State} (orderly : Orderly s) {change : Change}
    (member : change ∈ s.changes) : s.written change = s.server.next change.actor.action := by
  unfold State.written
  cases target : change.target with
  | ThreadCount =>
    dsimp only
    rw [orderly.read change member target]
  | Nodes =>
    have alone : State.nodesChange (s.changes.erase change) = false := by
      refine List.any_eq_false.mpr fun c remains => ?_
      simpa [← target] using nodesChange_erase orderly.single member c remains
    simp [alone]

theorem step_orderly {s u : State} {m : Move} (orderly : Orderly s)
    (taken : Guarded State.Apart State.Step s m u) :
    Orderly u ∧ Runs Server.State.Step s.server m.actions u.server := by
  obtain ⟨apart, allowed, rfl⟩ := taken
  cases m with
  | whole a =>
    obtain ⟨taken, unchanged⟩ := allowed
    have next : s.next (.whole a) = { s with server := s.server.next a } := by
      have quiet : (s.readsNodes a && State.nodesChange s.changes) = false := by
        cases reads : s.readsNodes a with
        | false => rfl
        | true => exact apart reads
      simp [State.next, quiet]
    rw [next]
    refine ⟨⟨orderly.single, fun c member target => ?_⟩, .single ⟨taken, rfl⟩⟩
    have kept := changed_count (s := s.server) (a := a) (by simp [unchanged])
    exact (orderly.read c member target).trans kept.symm
  | begins actor =>
    obtain ⟨target, found⟩ := Option.isSome_iff_exists.mp allowed.2.1
    have fresh : target ∉ s.changes.map Change.target := by
      intro member
      obtain ⟨c, inside, same⟩ := List.mem_map.mp member
      exact apart c inside (by rw [found, same])
    have next : s.next (.begins actor) =
        { s with changes := s.changes ++ [⟨actor, target, s.server.ThreadCount⟩] } := by
      simp only [State.next, found]
    rw [next]
    refine ⟨⟨?_, fun c member target' => ?_⟩, .nil⟩
    · rw [List.map_append, List.map_singleton, List.nodup_append]
      refine ⟨orderly.single, List.nodup_singleton _, fun v inside w last same => ?_⟩
      rw [List.mem_singleton.mp last] at same
      exact fresh ((show v = target from same) ▸ inside)
    · rcases List.mem_append.mp member with old | new
      · exact orderly.read c old target'
      · rw [List.mem_singleton.mp new]
  | ends change =>
    obtain ⟨taken, found, member⟩ := allowed
    have written := s.written_eq orderly member
    have next : s.next (.ends change) =
        { server := s.server.next change.actor.action, changes := s.changes.erase change } := by
      rw [← written]
      rfl
    rw [next]
    refine ⟨⟨?_, fun c remains target => ?_⟩, .single ⟨taken, rfl⟩⟩
    · exact orderly.single.sublist ((List.erase_sublist).map _)
    · have other := nodesChange_erase orderly.single member c remains
      have kept := changed_count (s := s.server) (a := change.actor.action) (by
        rw [found, ← target]
        simpa using other.symm)
      exact (orderly.read c (List.mem_of_mem_erase remains) target).trans kept.symm

/-- A run whose changes do not overlap is one in which each of them is one step. -/
theorem run_orderly {limit : UInt32} {ms : List Move} {s : State}
    (run : Runs (Guarded State.Apart State.Step) (State.start limit) ms s) :
    Runs Server.State.Step (Server.State.start limit) (ms.flatMap Move.actions) s.server := by
  have begun : Orderly (State.start limit) := ⟨List.nodup_nil, fun c member => nomatch member⟩
  obtain ⟨u, ⟨_, same⟩, coarse⟩ := run.erased
    (R := fun (s : State) (u : Server.State) => Orderly s ∧ s.server = u)
    (fun {s u m t} related taken => by
      obtain ⟨orderly, rfl⟩ := related
      obtain ⟨after, steps⟩ := step_orderly orderly taken
      exact ⟨t.server, ⟨after, rfl⟩, steps⟩)
    ⟨begun, rfl⟩
  rw [same]
  exact coarse

/-- No thread cannot be made, and no address is refused. -/
def Handled (ms : List Move) : Prop :=
  ∀ a ∈ ms.flatMap Move.actions, a.failed = false ∧ a.refused = false

/-- In a run without a refused address, without a failed `TH.create` and without changes that
overlap, the counter is the number of threads that have not finished whenever the loop is at its
head. Where no changes overlap, each failed `TH.create` stays counted. -/
theorem thread_count_exact {limit : UInt32} {ms : List Move} {s : State}
    (run : Runs (Guarded State.Apart State.Step) (State.start limit) ms s) :
    (Handled ms → s.server.undefined = false ∧
      (s.server.loop = .head → s.server.ThreadCount.toNat = s.server.served)) ∧
    (s.server.loop = .head → (s.server.ThreadCount.toNat = s.server.served ↔
      failures (ms.flatMap Move.actions) % 2 ^ 32 = 0)) := by
  have coarse := run_orderly run
  refine ⟨fun handled => ?_, head_count coarse⟩
  have sound := run_sound coarse fun a member => (handled a member).2
  refine ⟨sound.defined, fun at_head => (head_count coarse at_head).mpr ?_⟩
  have made : failures (ms.flatMap Move.actions) = 0 :=
    List.countP_eq_zero.mpr fun a member => by simp [(handled a member).1]
  rw [made, Nat.zero_mod]

/-! ### Two connections -/

/-- A connection is accepted as the `k`-th of those counted, and its thread created. -/
def connection (k : UInt32) : List Move :=
  [.whole .loop, .whole .loop, .whole (.accept true), .begins .loop,
    .ends ⟨.loop, .ThreadCount, k⟩, .whole .loop, .whole (.create (some malformed)), .whole .loop]

/-- The thread goes on to its last step while `k` are counted. -/
def served (n : Nat) (k : UInt32) : List Move :=
  List.replicate 3 (.whole (.thread n)) ++
    [.begins (.thread n), .ends ⟨.thread n, .Nodes, k⟩, .begins (.thread n),
      .ends ⟨.thread n, .Nodes, k⟩]

/-- The second of two threads finishes. -/
def oneOfTwo : List Move :=
  connection 0 ++ connection 1 ++ served 1 2 ++
    [.begins (.thread 1), .ends ⟨.thread 1, .ThreadCount, 2⟩]

/-- Both threads read the counter before either has written it. -/
def overlapping : List Move :=
  connection 0 ++ connection 1 ++ served 0 2 ++ served 1 2 ++
    [.begins (.thread 0), .begins (.thread 1), .ends ⟨.thread 0, .ThreadCount, 2⟩,
      .ends ⟨.thread 1, .ThreadCount, 2⟩]

/-- A connection, then a thread that cannot be made. -/
def oneFailure : List Move :=
  [.whole .loop, .whole .loop, .whole (.accept true), .begins .loop,
    .ends ⟨.loop, .ThreadCount, 0⟩, .whole .loop, .whole (.create none), .whole .loop]

theorem thread_count_two :
    (oneOfTwo.foldl State.next (State.start 25)).server.ThreadCount.toNat =
      (oneOfTwo.foldl State.next (State.start 25)).server.served := by
  have follows : Follows (fun s a => State.Apart s a ∧ State.Allowed s a) State.next
      (State.start 25) oneOfTwo := by
    simp [oneOfTwo, connection, served, Follows, State.Apart, State.Allowed, State.next,
      State.start, State.readsNodes, State.nodesChange, State.written, changed, Actor.action,
      Server.State.Allowed, Server.State.next, Server.State.start, Server.State.loopNext,
      Server.State.accept, Server.State.create, Server.State.served, Server.State.thread,
      Server.State.nodeStep, CServer.runNode, CNode.run, malformed]
  refine ((thread_count_exact follows.guarded).1 ?_).2 rfl
  simp [Handled, oneOfTwo, connection, served, Move.actions, Action.failed, Action.refused,
    Actor.action]

/-- No thread was made, or all have finished, and the counter is 1. -/
theorem thread_count_lost :
    (¬ ∀ (limit : UInt32) (ms : List Move) (s : State),
      Runs (Guarded State.Apart State.Step) (State.start limit) ms s → s.server.loop = .head →
        s.server.ThreadCount.toNat = s.server.served) ∧
    ¬ ∀ (limit : UInt32) (ms : List Move) (s : State),
      Runs State.Step (State.start limit) ms s → Handled ms → s.server.loop = .head →
        s.server.ThreadCount.toNat = s.server.served := by
  constructor
  · intro claim
    have follows : Follows (fun s a => State.Apart s a ∧ State.Allowed s a) State.next
        (State.start 25) oneFailure := by
      simp [oneFailure, Follows, State.Apart, State.Allowed, State.next, State.start,
        State.readsNodes, State.nodesChange, State.written, changed, Actor.action,
        Server.State.Allowed, Server.State.next, Server.State.start, Server.State.loopNext,
        Server.State.accept, Server.State.create]
    exact absurd (claim 25 _ _ follows.guarded rfl) (by decide)
  · intro claim
    have follows : Follows State.Allowed State.next (State.start 25) overlapping := by
      simp [overlapping, connection, served, Follows, State.Allowed, State.next, State.start,
        State.readsNodes, State.nodesChange, State.written, changed, Actor.action,
        Server.State.Allowed, Server.State.next, Server.State.start, Server.State.loopNext,
        Server.State.accept, Server.State.create, Server.State.served, Server.State.thread,
        Server.State.nodeStep, CServer.runNode, CNode.run, malformed]
    have handled : Handled overlapping := by
      simp [Handled, overlapping, connection, served, Move.actions, Action.failed, Action.refused,
        Actor.action]
    exact absurd (claim 25 _ _ follows.runs handled rfl) (by decide)

end Parted

end Solusek.Server
