import Solusek.Lib.Runs
import Solusek.Model.Descriptors

/-!
# Closing descriptors

A node closes its descriptor with `Socket->close()` and again in `~CNetHandlerSocket`. The
second close is harmless as long as no connection accepted in between got the same number.
-/

namespace Solusek.Descriptors

open Transition

namespace State

/-- A call on a descriptor reaches only the open file the socket was made for. -/
def OwnOnly (s : State) : Action → Prop
  | .call c => ∀ x op rest f, s.sockets c = some x → x.todo = some (op :: rest) →
      s.table x.SID = some f → f = x.own
  | _ => True

/-- No connection gets a number that another thread still has calls to make on, nor the
number the constructor takes for "no descriptor". -/
def Quiet (s : State) : Action → Prop
  | .accept sid _ refused =>
    (refused = false → sid ≠ 0) ∧ ∀ c x, s.sockets c = some x → x.SID = sid → x.todo = some []
  | _ => True

/-- No open file is closed twice, and one whose connection has been given up is closed. -/
def ClosedOnce (s : State) : Prop :=
  s.closed.Nodup ∧ ∀ c x, s.sockets c = some x → x.todo = some [] → s.closed.count c = 1

end State

theorem update_some {α β : Type*} [DecidableEq α] {f : α → Option β} {a b : α} {x y : β}
    (found : Function.update f a (some x) b = some y) :
    (b = a ∧ y = x) ∨ (b ≠ a ∧ f b = some y) := by
  by_cases same : b = a
  · subst same
    exact Or.inl ⟨rfl, by simpa using found.symm⟩
  · exact Or.inr ⟨same, by simpa [Function.update_of_ne same] using found⟩

/-! ### Where the open files of connections stand -/

/-- The socket of connection `c`: until its open file is closed the number names that file and
a close is still to come; afterwards the number is free as long as calls are left. -/
structure Standing (s : State) (c : Nat) (x : Socket) : Prop where
  own : x.own = c
  fresh : c < s.files
  live : c ∉ s.closed → s.table x.SID = some c ∧ ∀ ops, x.todo = some ops → .close ∈ ops
  dead : c ∈ s.closed → x.todo ≠ some [] → s.table x.SID = none

structure Orderly (s : State) : Prop where
  standing : ∀ c x, s.sockets c = some x → Standing s c x
  named : ∀ n f, s.table n = some f → f ∉ s.closed ∧ ∃ x, s.sockets f = some x ∧ x.SID = n
  once : s.closed.Nodup
  made : ∀ f ∈ s.closed, f < s.files

theorem new_orderly : Orderly State.new := by
  constructor <;> simp [State.new]

theorem ownOnly_of_orderly {s : State} (orderly : Orderly s) (a : Action) : s.OwnOnly a := by
  cases a with
  | call c =>
    intro x op rest f socket pending named
    have stands := orderly.standing c x socket
    by_cases gone : c ∈ s.closed
    · rw [stands.dead gone (by simp [pending])] at named
      exact absurd named (by simp)
    · rw [(stands.live gone).1] at named
      exact (Option.some.inj named).symm.trans stands.own.symm
  | _ => trivial

/-! ### Accepting -/

theorem accept_quiet {s : State} {sid sock : Int} {refused : Bool}
    (quiet : s.Quiet (.accept sid sock refused)) :
    s.accept sid sock refused =
      { s with
        table := Function.update s.table sid (some s.files)
        files := s.files + 1
        sockets := Function.update s.sockets s.files
          (some { SID := sid, own := s.files,
                  todo := if refused then some [.close] else none }) } := by
  cases refused with
  | true => simp [State.accept]
  | false => simp [State.accept, quiet.1 rfl]

theorem accept_orderly {s : State} (orderly : Orderly s) {sid sock : Int} {refused : Bool}
    (free : s.table sid = none) (quiet : s.Quiet (.accept sid sock refused)) :
    Orderly (s.accept sid sock refused) := by
  rw [accept_quiet quiet]
  have unclosed : s.files ∉ s.closed := fun h => Nat.lt_irrefl _ (orderly.made _ h)
  refine ⟨?_, ?_, orderly.once, fun f h => Nat.lt_succ_of_lt (orderly.made f h)⟩
  · intro c x socket
    rcases update_some socket with ⟨rfl, rfl⟩ | ⟨_, old⟩
    · refine ⟨rfl, Nat.lt_succ_self _, fun _ => ⟨Function.update_self .., ?_⟩,
        fun h => absurd h unclosed⟩
      intro ops todo
      cases refused with
      | true =>
        have same : [Syscall.close] = ops := by simpa using todo
        simp [← same]
      | false => simp at todo
    · have stands := orderly.standing c x old
      -- A number that was free and is quiet belongs to nobody who still makes calls.
      by_cases shared : x.SID = sid
      · have finished := quiet.2 c x old shared
        refine ⟨stands.own, Nat.lt_succ_of_lt stands.fresh, fun live => ?_,
          fun _ pending => absurd finished pending⟩
        have named := (stands.live live).1
        rw [shared, free] at named
        exact absurd named (by simp)
      · refine ⟨stands.own, Nat.lt_succ_of_lt stands.fresh, fun live => ?_, fun gone pending => ?_⟩
        · obtain ⟨named, ahead⟩ := stands.live live
          exact ⟨by simpa [Function.update_of_ne shared] using named, ahead⟩
        · simpa [Function.update_of_ne shared] using stands.dead gone pending
  · intro n f named
    by_cases same : n = sid
    · subst same
      have equal : s.files = f := by simpa using named
      subst equal
      exact ⟨unclosed, _, Function.update_self .., rfl⟩
    · obtain ⟨opened, x, socket, number⟩ :=
        orderly.named n f (by simpa [Function.update_of_ne same] using named)
      have older : f ≠ s.files := Nat.ne_of_lt (orderly.standing f x socket).fresh
      exact ⟨opened, x, by simpa [Function.update_of_ne older] using socket, number⟩

/-! ### Giving a connection up -/

/-- Changing what a socket has left to do leaves every number naming the same socket. -/
theorem named_update {s : State} (orderly : Orderly s) {c : Nat} {x y : Socket}
    (found : s.sockets c = some x) (same : y.SID = x.SID) :
    ∀ n f, s.table n = some f → f ∉ s.closed ∧
      ∃ z, Function.update s.sockets c (some y) f = some z ∧ z.SID = n := by
  intro n f entry
  obtain ⟨opened, z, socket, number⟩ := orderly.named n f entry
  by_cases mine : f = c
  · subst mine
    have equal : z = x := Option.some.inj (socket.symm.trans found)
    exact ⟨opened, y, Function.update_self .., by rw [same, ← equal, number]⟩
  · exact ⟨opened, z, by simpa [Function.update_of_ne mine] using socket, number⟩

/-- A socket that still had something to do may be left with other calls, if they close its file
where it is open. -/
theorem Orderly.setTodo {s : State} (orderly : Orderly s) {c : Nat} {x : Socket}
    (found : s.sockets c = some x) (busy : x.todo ≠ some []) {ops : List Syscall}
    (ahead : c ∉ s.closed → .close ∈ ops) :
    Orderly { s with sockets := Function.update s.sockets c (some { x with todo := some ops }) } := by
  refine ⟨?_, named_update orderly found rfl, orderly.once, orderly.made⟩
  intro d y socket
  rcases update_some socket with ⟨rfl, rfl⟩ | ⟨_, old⟩
  · have stands := orderly.standing d x found
    refine ⟨stands.own, stands.fresh, fun live => ⟨(stands.live live).1, fun left todo => ?_⟩,
      fun gone _ => stands.dead gone busy⟩
    rw [← Option.some.inj todo]
    exact ahead live
  · have stands := orderly.standing d y old
    exact ⟨stands.own, stands.fresh, stands.live, stands.dead⟩

theorem finish_orderly {s : State} (orderly : Orderly s) {c : Nat} {y : Socket}
    (found : s.sockets c = some y) (serving : y.todo = none) : Orderly (s.finish c) := by
  simp only [State.finish, found]
  exact orderly.setTodo found (by simp [serving]) fun _ => by decide

theorem call_eq {s : State} {c : Nat} {x : Socket} {op : Syscall} {rest : List Syscall}
    (found : s.sockets c = some x) (pending : x.todo = some (op :: rest)) :
    s.call c = { s.syscall x.SID op with
      sockets := Function.update s.sockets c (some { x with todo := some rest }) } := by
  obtain ⟨SID, own, todo⟩ := x
  subst pending
  simp [State.call, found]

theorem shutdown_orderly {s : State} (orderly : Orderly s) {c : Nat} {x : Socket}
    {rest : List Syscall} (found : s.sockets c = some x)
    (pending : x.todo = some (.shutdown :: rest)) : Orderly (s.call c) := by
  rw [call_eq found pending]
  refine orderly.setTodo found (by simp [pending]) fun live => ?_
  have ahead := ((orderly.standing c x found).live live).2 _ pending
  simpa using ahead

theorem close_live_orderly {s : State} (orderly : Orderly s) {c : Nat} {x : Socket}
    {rest : List Syscall} (found : s.sockets c = some x)
    (pending : x.todo = some (.close :: rest)) (live : c ∉ s.closed) : Orderly (s.call c) := by
  have stands := orderly.standing c x found
  have named := (stands.live live).1
  rw [call_eq found pending]
  simp only [State.syscall, named]
  refine ⟨?_, ?_, List.nodup_cons.mpr ⟨live, orderly.once⟩, ?_⟩
  · intro d y socket
    rcases update_some socket with ⟨rfl, rfl⟩ | ⟨same, old⟩
    · exact ⟨stands.own, stands.fresh, fun absent => absurd List.mem_cons_self absent,
        fun _ _ => Function.update_self ..⟩
    · have other := orderly.standing d y old
      refine ⟨other.own, other.fresh, fun absent => ?_, fun gone left => ?_⟩
      · have unclosed : d ∉ s.closed := fun h => absent (List.mem_cons_of_mem _ h)
        obtain ⟨theirs, ahead⟩ := other.live unclosed
        have apart : y.SID ≠ x.SID := by
          intro shared
          rw [shared, named] at theirs
          exact same (Option.some.inj theirs).symm
        exact ⟨by simpa [Function.update_of_ne apart] using theirs, ahead⟩
      · have before : d ∈ s.closed := (List.mem_cons.mp gone).resolve_left same
        have freed := other.dead before left
        by_cases shared : y.SID = x.SID
        · simp [shared]
        · simpa [Function.update_of_ne shared] using freed
  · intro n f entry
    by_cases same : n = x.SID
    · subst same
      simp at entry
    · have old : s.table n = some f := by simpa [Function.update_of_ne same] using entry
      obtain ⟨opened, y, socket, number⟩ := orderly.named n f old
      have other : f ≠ c := by
        rintro rfl
        have equal : y = x := Option.some.inj (socket.symm.trans found)
        exact same (by rw [← number, equal])
      refine ⟨?_, y, by simpa [Function.update_of_ne other] using socket, number⟩
      intro gone
      exact opened ((List.mem_cons.mp gone).resolve_left other)
  · intro f gone
    rcases List.mem_cons.mp gone with rfl | before
    · exact stands.fresh
    · exact orderly.made f before

/-- Every later close of connection `c` finds its number free. -/
theorem close_dead_orderly {s : State} (orderly : Orderly s) {c : Nat} {x : Socket}
    {rest : List Syscall} (found : s.sockets c = some x)
    (pending : x.todo = some (.close :: rest)) (gone : c ∈ s.closed) : Orderly (s.call c) := by
  have stands := orderly.standing c x found
  have freed := stands.dead gone (by simp [pending])
  rw [call_eq found pending]
  simp only [State.syscall, freed]
  exact orderly.setTodo found (by simp [pending]) fun live => absurd gone live

theorem step_orderly {s t : State} {a : Action} (orderly : Orderly s)
    (taken : Guarded State.Quiet State.Step s a t) : Orderly t := by
  obtain ⟨quiet, allowed, rfl⟩ := taken
  cases a with
  | accept sid sock refused => exact accept_orderly orderly allowed.2.1 quiet
  | finish c =>
    obtain ⟨x, found, serving⟩ := allowed
    exact finish_orderly orderly found serving
  | call c =>
    obtain ⟨x, op, rest, found, pending⟩ := allowed
    cases op with
    | shutdown => exact shutdown_orderly orderly found pending
    | close =>
      by_cases gone : c ∈ s.closed
      · exact close_dead_orderly orderly found pending gone
      · exact close_live_orderly orderly found pending gone

theorem closedOnce_of_orderly {s : State} (orderly : Orderly s) : s.ClosedOnce := by
  refine ⟨orderly.once, ?_⟩
  intro c x socket finished
  have gone : c ∈ s.closed := by
    by_contra live
    exact absurd (((orderly.standing c x socket).live live).2 _ finished) (by simp)
  exact List.count_eq_one_of_mem orderly.once gone

/-! ### A number taken too early -/

def Made (s : State) : Prop := ∀ c x, s.sockets c = some x → c < s.files ∧ x.own < s.files

/-- When a connection gets a number on which another thread still has a call to make, that
thread's next call reaches the new connection. -/
theorem accept_unquiet {s : State} {sid sock : Int} {refused : Bool} {c : Nat} {x : Socket}
    {op : Syscall} {rest : List Syscall} (made : Made s)
    (positive : refused = false → sid ≠ 0) (found : s.sockets c = some x)
    (shared : x.SID = sid) (pending : x.todo = some (op :: rest)) :
    ¬ (s.accept sid sock refused).OwnOnly (.call c) := by
  have older := made c x found
  have entry : (s.accept sid sock refused).table sid = some s.files := by
    cases refused with
    | true => simp [State.accept]
    | false => simp [State.accept, positive rfl]
  have socket : (s.accept sid sock refused).sockets c = some x := by
    have different : c ≠ s.files := Nat.ne_of_lt older.1
    cases refused with
    | true => simpa [State.accept, Function.update_of_ne different] using found
    | false => simpa [State.accept, positive rfl, Function.update_of_ne different] using found
  intro ownOnly
  have reached := ownOnly x op rest s.files socket pending (by rw [shared, entry])
  omega

/-! ### Runs -/

/-- In a run in which no connection gets a number that another thread is about to close again,
nor the number 0, every call reaches the caller's own open file and every connection's open
file is closed exactly once; and a number taken too early is shut down by its old owner. -/
theorem descriptor_closed_once {as : List Action} {s : State}
    (run : Runs (Guarded State.Quiet State.Step) State.new as s) :
    (∀ a, s.OwnOnly a) ∧ s.ClosedOnce ∧
    ∀ (sid sock : Int) (refused : Bool) (c : Nat) (x : Socket) (op : Syscall)
      (rest : List Syscall), (refused = false → sid ≠ 0) → s.sockets c = some x →
      x.SID = sid → x.todo = some (op :: rest) →
        ¬ (s.accept sid sock refused).OwnOnly (.call c) := by
  have orderly : Orderly s := run.invariant new_orderly step_orderly
  refine ⟨ownOnly_of_orderly orderly, closedOnce_of_orderly orderly, ?_⟩
  intro sid sock refused c x op rest positive found shared pending
  refine accept_unquiet ?_ positive found shared pending
  intro d y socket
  have stands := orderly.standing d y socket
  exact ⟨stands.fresh, stands.own ▸ stands.fresh⟩

/-- Connections on descriptor 5, one after another: the first and the last are served, the one
between them is refused. -/
def onFive : List Action :=
  [.accept 5 0 false, .finish 0, .call 0, .call 0, .call 0, .call 0, .accept 5 0 true, .call 1,
    .accept 5 0 false, .finish 2, .call 2, .call 2, .call 2, .call 2]

theorem descriptor_closed_once_reused : (onFive.foldl State.next State.new).ClosedOnce := by
  have follows : Follows (fun s a => State.Quiet s a ∧ State.Allowed s a) State.next State.new
      onFive := by
    refine ⟨⟨⟨by decide, by simp [State.new]⟩, by decide, rfl, by decide⟩, ?_⟩
    refine ⟨⟨trivial, _, rfl, rfl⟩, ⟨trivial, _, _, _, rfl, rfl⟩, ⟨trivial, _, _, _, rfl, rfl⟩,
      ⟨trivial, _, _, _, rfl, rfl⟩, ⟨trivial, _, _, _, rfl, rfl⟩, ?_⟩
    refine ⟨⟨⟨by decide, fun c x found _ => ?_⟩, by decide, rfl, by decide⟩,
      ⟨trivial, _, _, _, rfl, rfl⟩, ?_⟩
    · obtain ⟨_, rfl⟩ : c = 0 ∧ ⟨5, 0, some []⟩ = x := by
        simpa [State.next, State.accept, State.finish, State.call, State.new, State.syscall,
          CNode.exitPath, CNetHandlerSocket.close, CNetHandlerSocket.destructor,
          Function.update_apply] using found
      rfl
    refine ⟨⟨⟨by decide, fun c x found _ => ?_⟩, by decide, rfl, by decide⟩,
      ⟨trivial, _, rfl, rfl⟩, ⟨trivial, _, _, _, rfl, rfl⟩, ⟨trivial, _, _, _, rfl, rfl⟩,
      ⟨trivial, _, _, _, rfl, rfl⟩, ⟨trivial, _, _, _, rfl, rfl⟩, trivial⟩
    · have either : (if c = 1 then some ⟨5, 1, some []⟩ else
          if c = 0 then some ⟨5, 0, some []⟩ else none) = some x := by
        simpa [State.next, State.accept, State.finish, State.call, State.new, State.syscall,
          CNode.exitPath, CNetHandlerSocket.close, CNetHandlerSocket.destructor,
          Function.update_apply] using found
      split at either
      · cases either; rfl
      split at either
      · cases either; rfl
      · cases either
  exact (descriptor_closed_once follows.guarded).2.1

/-- A connection accepted between the two closes of descriptor 5 is shut down by the node that
had the number before. -/
theorem descriptor_stolen :
    ¬ ∀ (as : List Action) (s : State), Runs State.Step State.new as s →
      (∀ a, s.Allowed a → s.OwnOnly a) ∧ s.ClosedOnce := by
  intro claim
  have accepted : State.Step State.new (.accept 5 0 false)
      (State.new.next (.accept 5 0 false)) := ⟨⟨by decide, rfl, by decide⟩, rfl⟩
  have finished := Runs.snoc (Runs.single accepted)
    (show State.Step _ (.finish 0) _ from ⟨⟨_, rfl, rfl⟩, rfl⟩)
  have shut := Runs.snoc finished
    (show State.Step _ (.call 0) _ from ⟨⟨_, _, _, rfl, rfl⟩, rfl⟩)
  have closed := Runs.snoc shut
    (show State.Step _ (.call 0) _ from ⟨⟨_, _, _, rfl, rfl⟩, rfl⟩)
  have again := Runs.snoc closed
    (show State.Step _ (.accept 5 0 false) _ from ⟨⟨by decide, rfl, by decide⟩, rfl⟩)
  have ownOnly := (claim _ _ again).1 (.call 0) ⟨_, _, _, rfl, rfl⟩
  exact absurd (ownOnly _ _ _ 1 rfl rfl rfl) (by decide)

end Solusek.Descriptors
