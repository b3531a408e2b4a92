import Solusek.Proofs.ConfigLayout
import Solusek.Proofs.ServerLife

/-!
# What a server leaves behind

A configuration that another has replaced, a session that `destroySession` has forgotten and the
package of a thread that was not made are deleted by nobody; everything else is deleted once.
-/

namespace Solusek.Objects

open Lifetimes Session Transition

theorem exists_lines (body : Str) : ∃ ls last, (∀ l ∈ ls, '\n' ∉ l ∧ l.length < body.length) ∧
    '\n' ∉ last ∧ body = Config.terminated ls ++ last := by
  induction body with
  | nil => exact ⟨[], [], List.forall_mem_nil _, List.not_mem_nil, rfl⟩
  | cons ch body ih =>
    obtain ⟨ls, last, fine, ends, rfl⟩ := ih
    have longer : ∀ l ∈ ls, '\n' ∉ l ∧ l.length < (Config.terminated ls ++ last).length + 1 :=
      fun l member => ⟨(fine l member).1, Nat.lt_succ_of_lt (fine l member).2⟩
    by_cases newline : ch = '\n'
    · refine ⟨[] :: ls, last, List.forall_mem_cons.mpr ⟨⟨List.not_mem_nil, Nat.succ_pos _⟩, longer⟩,
        ends, ?_⟩
      rw [newline]
      rfl
    · cases ls with
      | nil => exact ⟨[], ch :: last, List.forall_mem_nil _, by simp [ends, Ne.symm newline], rfl⟩
      | cons l ls =>
        obtain ⟨first, rest⟩ := List.forall_mem_cons.mp longer
        refine ⟨(ch :: l) :: ls, last, List.forall_mem_cons.mpr ⟨⟨?_, ?_⟩, rest⟩, ends, rfl⟩
        · simp [first.1, Ne.symm newline]
        · exact Nat.succ_lt_succ (fine l List.mem_cons_self).2

/-- A file whose length an `int` has is read without an exception. -/
theorem baseNode_reads {text : Str} (short : text.length < 2 ^ 31) :
    ∃ top, Config.baseNode (cstr text) = .ok top := by
  obtain ⟨ls, last, fine, ends, split⟩ := exists_lines (cstr text)
  have shorter : (cstr text).length ≤ text.length := (List.takeWhile_sublist _).length_le
  have read := Config.baseNode_lines (fun l member => ⟨(fine l member).1, by
    have := (fine l member).2
    omega⟩) ends
  exact ⟨_, split ▸ read⟩

/-- Nothing has been lost. -/
structure State.Thrifty (s : State) : Prop where
  config : ∀ c < s.configs.length, s.Config = some c
  sessions : ∀ p < s.sessions.heap.length, p ∈ s.sessions.Sessions
  connections : ∀ x ∈ s.connections, x.stage ≠ .failed

/-- What an action must not do: load a second configuration, destroy a session, or fail to make a
thread. -/
def State.Frugal (s : State) : Action → Prop
  | .call (.loadConfig _) => s.Config = none
  | .call (.destroySession id) => s.sessions.getSession id = none
  | .create _ route => route ≠ none
  | _ => True

theorem getSession_kept {t : SessionTable} (distinct : t.Sessions.Nodup)
    (inside : ∀ p ∈ t.Sessions, p < t.heap.length) (id : Str) :
    (∀ p < t.heap.length, p ∈ (t.destroySession id).Sessions) ↔
      (∀ p < t.heap.length, p ∈ t.Sessions) ∧ t.getSession id = none := by
  unfold SessionTable.destroySession SessionTable.getSession
  cases found : t.Sessions.find? (fun p => t.idOf p == some id) with
  | none =>
    have same := List.eraseP_of_forall_not (List.find?_eq_none.mp found)
    simp [same]
  | some p =>
    obtain ⟨test, front, back, split, before⟩ := List.find?_eq_some_iff_append.mp found
    have gone : p ∉ t.Sessions.eraseP fun p => t.idOf p == some id := by
      have others : ∀ a ∈ front, ¬ (t.idOf a == some id) = true := fun a member => by
        simpa using before a member
      have removed : (p :: back).eraseP (fun p => t.idOf p == some id) = back := by
        simp [test]
      rw [split, List.eraseP_append_right _ others, removed]
      have middle := (List.nodup_middle.mp (split ▸ distinct))
      exact (List.nodup_cons.mp middle).1
    have below := inside p (List.mem_of_find?_eq_some found)
    simp only [reduceCtorEq, and_false, iff_false]
    exact fun all => gone (all p below)

theorem stages_set {l : List Connection} {c : Nat} {x : Connection} (found : l[c]? = some x)
    (before : x.stage ≠ .failed) (x' : Connection) : (∀ y ∈ l.set c x', y.stage ≠ .failed) ↔
      (∀ y ∈ l, y.stage ≠ .failed) ∧ x'.stage ≠ .failed := by
  have bound := (List.getElem?_eq_some_iff.mp found).1
  constructor
  · intro all
    refine ⟨fun y member => ?_, all x' (List.mem_set bound x')⟩
    obtain ⟨d, there⟩ := List.mem_iff_getElem?.mp member
    by_cases same : c = d
    · subst same
      rw [found] at there
      exact Option.some.inj there ▸ before
    · refine all y (List.mem_iff_getElem?.mpr ⟨d, ?_⟩)
      rwa [List.getElem?_set_ne same]
  · rintro ⟨all, new⟩ y member
    rcases List.mem_or_eq_of_mem_set member with old | rfl
    · exact all y old
    · exact new

theorem thrifty_congr {s s' : State} (configs : s'.configs = s.configs)
    (config : s'.Config = s.Config)
    (length : s'.sessions.heap.length = s.sessions.heap.length)
    (listed : s'.sessions.Sessions = s.sessions.Sessions)
    (connections : (∀ x ∈ s'.connections, x.stage ≠ .failed) ↔
      ∀ x ∈ s.connections, x.stage ≠ .failed) : s'.Thrifty ↔ s.Thrifty := by
  constructor
  · rintro ⟨first, second, third⟩
    exact ⟨configs ▸ config ▸ first, length ▸ listed ▸ second, connections.mp third⟩
  · rintro ⟨first, second, third⟩
    exact ⟨configs ▸ config ▸ first, length ▸ listed ▸ second, connections.mpr third⟩

theorem call_thrifty {s : State} (formed : Formed s) {call : Call}
    (allowed : s.Allowed (.call call))
    (sane : s.Sane (.call call)) :
    (s.call call).Thrifty ↔ s.Thrifty ∧ s.Frugal (.call call) := by
  obtain ⟨_, fits⟩ := allowed
  cases call with
  | loadConfig file =>
    cases file with
    | none => exact absurd rfl sane
    | some text =>
      obtain ⟨top, read⟩ := baseNode_reads fits
      have next : s.call (.loadConfig (some text)) = s.loadConfig (some text) := rfl
      rw [next, State.loadConfig, read]
      constructor
      · rintro ⟨first, second, third⟩
        have here : s.configs.length = 0 := by
          by_contra more
          have same := first 0 (by
            show 0 < (s.configs ++ [top]).length
            rw [List.length_append]
            omega)
          exact more (Option.some.inj same)
        have fresh : s.Config = none := by
          cases old : s.Config with
          | none => rfl
          | some c => exact absurd (formed.config c old) (by omega)
        exact ⟨⟨fun c below => by omega, second, third⟩, fresh⟩
      · rintro ⟨⟨first, second, third⟩, fresh⟩
        refine ⟨fun c below => ?_, second, third⟩
        have old : ¬ 0 < s.configs.length := fun more => by
          have same := first 0 more
          rw [State.Frugal] at fresh
          rw [fresh] at same
          cases same
        have below' : c < (s.configs ++ [top]).length := below
        rw [List.length_append, List.length_singleton] at below'
        show some s.configs.length = some c
        rw [show c = s.configs.length by omega]
  | registerEndpoint e =>
    refine Iff.trans ?_ (and_iff_left trivial).symm
    have next : s.call (.registerEndpoint e) = s.registerEndpoint e := rfl
    rw [next, State.registerEndpoint]
    split <;> exact thrifty_congr rfl rfl rfl rfl Iff.rfl
  | startSession now =>
    refine Iff.trans ?_ (and_iff_left trivial).symm
    constructor
    · rintro ⟨first, second, third⟩
      refine ⟨first, fun p below => ?_, third⟩
      have member := second p (by
        show p < (s.sessions.heap ++ [_]).length
        rw [List.length_append]
        omega)
      rcases List.mem_append.mp member with old | new
      · exact old
      · exact absurd (List.mem_singleton.mp new) (Nat.ne_of_lt below)
    · rintro ⟨first, second, third⟩
      refine ⟨first, fun p below => ?_, third⟩
      have below' : p < (s.sessions.heap ++ [(CSession.new now s.sessions.Incremental).1]).length :=
        below
      rw [List.length_append, List.length_singleton] at below'
      show p ∈ s.sessions.Sessions ++ [s.sessions.heap.length]
      rw [List.mem_append, List.mem_singleton]
      rcases Nat.lt_or_eq_of_le (Nat.le_of_lt_succ below') with old | same
      · exact Or.inl (second p old)
      · exact Or.inr same
  | destroySession id =>
    have listed := getSession_kept formed.distinct formed.listed id
    constructor
    · rintro ⟨first, second, third⟩
      obtain ⟨all, missing⟩ := listed.mp second
      exact ⟨⟨first, all, third⟩, missing⟩
    · rintro ⟨⟨first, second, third⟩, missing⟩
      exact ⟨first, listed.mpr ⟨second, missing⟩, third⟩
  | setStringValue p name value =>
    refine Iff.trans ?_ (and_iff_left trivial).symm
    have next : s.call (.setStringValue p name value) = s.setStringValue p name value := rfl
    rw [next, State.setStringValue]
    split
    · exact Iff.rfl
    · exact thrifty_congr rfl rfl (List.length_modify _ _ _) rfl Iff.rfl
  | getStringValue p name =>
    refine Iff.trans ?_ (and_iff_left trivial).symm
    have next : s.call (.getStringValue p name) = s.getStringValue p name := rfl
    rw [next, State.getStringValue]
    split
    · exact Iff.rfl
    · exact thrifty_congr rfl rfl rfl rfl Iff.rfl
  | addStaticDirectory | getSession id =>
    refine Iff.trans ?_ (and_iff_left trivial).symm
    exact thrifty_congr rfl rfl rfl rfl Iff.rfl

theorem put_thrifty {s : State} {c : Nat} {x x' : Connection} (found : s.connections[c]? = some x)
    (before : x.stage ≠ .failed) (Nodes : List Nat) (l : List Happening) :
    (State.put { s with Nodes := Nodes } c x' l).Thrifty ↔ s.Thrifty ∧ x'.stage ≠ .failed := by
  have stages := stages_set found before x'
  constructor
  · rintro ⟨first, second, third⟩
    obtain ⟨all, new⟩ := stages.mp third
    exact ⟨⟨first, second, all⟩, new⟩
  · rintro ⟨⟨first, second, third⟩, new⟩
    exact ⟨first, second, stages.mpr ⟨third, new⟩⟩

theorem step_thrifty {s : State} (formed : Formed s) {a : Action} (allowed : s.Allowed a)
    (sane : s.Sane a) : (s.next a).Thrifty ↔ s.Thrifty ∧ s.Frugal a := by
  cases a with
  | call call => exact call_thrifty formed allowed sane
  | accept socket =>
    refine Iff.trans ?_ (and_iff_left trivial).symm
    refine thrifty_congr rfl rfl rfl rfl ?_
    show (∀ x ∈ s.connections ++ [Connection.mk socket .accepted], x.stage ≠ .failed) ↔ _
    rw [List.forall_mem_append, List.forall_mem_singleton]
    exact and_iff_left (by simp)
  | drop c =>
    obtain ⟨socket, found⟩ := allowed
    rw [next_drop found]
    exact (put_thrifty found (by simp) s.Nodes _).trans
      (and_congr_right fun _ => by simp [State.Frugal])
  | create c route =>
    obtain ⟨socket, found⟩ := allowed
    rw [next_create found]
    cases route with
    | none =>
      exact (put_thrifty found (by simp) s.Nodes _).trans
        (and_congr_right fun _ => by simp [State.Frugal])
    | some r =>
      exact (put_thrifty found (by simp) s.Nodes _).trans
        (and_congr_right fun _ => by simp [State.Frugal])
  | assign c =>
    obtain ⟨socket, r, todo, found⟩ := allowed
    rw [next_assign found]
    exact (put_thrifty found (by simp) s.Nodes _).trans
      (and_congr_right fun _ => by simp [State.Frugal])
  | thread c =>
    obtain ⟨socket, r, step, rest, found⟩ := allowed
    rw [next_thread found, State.thread]
    obtain ⟨Nodes, listing⟩ : ∃ Nodes, s.listing c step = { s with Nodes := Nodes } := by
      cases step <;> exact ⟨_, rfl⟩
    rw [listing]
    exact (put_thrifty found (by simp) Nodes _).trans
      (and_congr_right fun _ => by simp [State.Frugal])
  | finish | dispose =>
    refine Iff.trans ?_ (and_iff_left trivial).symm
    exact thrifty_congr rfl rfl rfl rfl Iff.rfl

theorem run_thrifty {as : List Action} {s : State} (run : Runs State.Step .start as s)
    (sane : Each (fun pre a => (pre.foldl State.next .start).Sane a) [] as) :
    s.Thrifty ↔ Each (fun pre a => (pre.foldl State.next .start).Frugal a) [] as := by
  induction run with
  | nil =>
    refine iff_of_true ⟨?_, ?_, List.forall_mem_nil _⟩ trivial
    · exact fun c below => absurd below (Nat.not_lt_zero c)
    · exact fun p below => absurd below (Nat.not_lt_zero p)
  | @snoc as t u a before last ih =>
    obtain ⟨first, now, _⟩ := (each_append _ _ _ _).mp sane
    have now' : (([] ++ as).foldl State.next .start).Sane a := now
    rw [List.nil_append, ← run_eq before] at now'
    rw [last.2, step_thrifty (run_sound before first).kept.formed last.1 now', ih first,
      each_append]
    refine and_congr_right fun _ => ?_
    rw [run_eq before]
    exact (and_iff_left trivial).symm

/-- `run` is through with the connection, and so is its thread. -/
def Connection.Finished (x : Connection) : Prop :=
  match x.stage with
  | .dropped | .failed => True
  | .serving _ _ todo => todo = []
  | .accepted => False

theorem server_left {s : State} (sound : Sound s) (disposed : s.disposed = true)
    (thrifty : s.Thrifty) {o : Option Object} (mine : owner o = .server) : ¬ Live s.log o := by
  rw [← live_part mine, sound.kept.books.live_iff]
  rintro (⟨_, standing, _⟩ | lost)
  · rw [disposed] at standing
    cases standing
  · rcases o with _ | o
    · exact lost
    · cases o <;> first
        | exact lost
        | exact lost.2 (thrifty.config _ lost.1)
        | exact lost.2.1 (thrifty.config _ lost.1)
        | exact lost.2 (thrifty.sessions _ lost.1)
        | exact lost.1 (thrifty.sessions _ (itemsOf_inside lost.2))

theorem connection_left {s : State} (sound : Sound s) {c : Nat}
    (finished : ∀ x ∈ s.connections, x.Finished) (whole : ∀ x ∈ s.connections, x.stage ≠ .failed)
    {o : Option Object} (own : owner o = .connection c) : ¬ Live s.log o := by
  obtain ⟨l, lived, same⟩ := sound.lives c
  rw [← live_part own, same, live_part own]
  cases found : s.connections[c]? with
  | none =>
    rw [found] at lived
    obtain rfl : l = [] := lived
    exact fun live => by cases live.1
  | some x =>
    rw [found] at lived
    have member := List.mem_of_getElem? found
    have ended := finished x member
    have made := whole x member
    obtain ⟨socket, stage⟩ := x
    cases stage with
    | accepted => exact ended.elim
    | failed => exact absurd rfl made
    | dropped =>
      obtain rfl : l = begun c _ ++ _ := lived
      cases socket <;> simp [begun, Connection.Socket, Live]
    | serving ID r todo =>
      obtain rfl : todo = [] := ended
      cases ID with
      | false => cases lived.1
      | true =>
        obtain ⟨done, split, rfl⟩ := lived
        rw [List.append_nil] at split
        exact split ▸ served_over own _ r

/-- Where everything has come to its end, everything has gone exactly if nothing was lost. -/
theorem all_gone_iff {s : State} (sound : Sound s) (disposed : s.disposed = true)
    (finished : ∀ x ∈ s.connections, x.Finished) : (∀ o, ¬ Live s.log o) ↔ s.Thrifty := by
  constructor
  · intro gone
    have lost (o : Option Object) (mine : owner o = .server) : ¬ s.Lost o := fun there =>
      gone o ((live_part mine).mp ((sound.kept.books.live_iff o).mpr (Or.inr there)))
    refine ⟨fun c below => ?_, fun p below => ?_, fun x member failed => ?_⟩
    · by_contra other
      exact lost (some (.config c)) rfl ⟨below, other⟩
    · by_contra other
      exact lost (some (.session p)) rfl ⟨below, other⟩
    · obtain ⟨c, found⟩ := List.mem_iff_getElem?.mp member
      obtain ⟨l, lived, same⟩ := sound.lives c
      obtain ⟨socket, stage⟩ := x
      obtain rfl : stage = .failed := failed
      rw [found] at lived
      obtain rfl : l = begun c _ ++ _ := lived
      have own : owner (some (.package c)) = .connection c := rfl
      refine gone (some (.package c)) ((live_part own).mp (same ▸ (live_part own).mpr ?_))
      cases socket <;> simp [begun, Live]
  · intro thrifty o
    cases own : owner o with
    | nobody =>
      rw [← live_part own, sound.nobody]
      exact fun live => by cases live.1
    | server => exact server_left sound disposed thrifty own
    | connection c => exact connection_left sound finished thrifty.connections own

/-- Everything that was made has been deleted once. -/
def State.Freed (s : State) : Prop := ∀ o, .made o ∈ s.log → s.log.count (.released o) = 1

/-- When the server and all its threads have come to their end, everything has been deleted once,
exactly if each action was frugal. -/
theorem server_objects_freed_iff {as : List Action} {s : State} (run : Runs State.Step .start as s)
    (clean : s.Clean) (disposed : s.disposed = true) (finished : ∀ x ∈ s.connections, x.Finished) :
    s.Freed ↔ Each (fun pre a => (pre.foldl State.next .start).Frugal a) [] as := by
  have sane := run_sane run clean
  have sound := run_sound run sane
  have tidy : Each Tidy [] s.log := by
    refine each_mono (fun _ _ fine => ?_) clean
    exact fine.1
  rw [← run_thrifty run sane, ← all_gone_iff sound disposed finished]
  constructor
  · intro once o live
    exact (count_released tidy live.1).mp (once o live.1) live
  · intro gone o made
    exact (count_released tidy made).mpr (gone o)

theorem server_objects_freed_iff_page : (exampleLife.foldl State.next .start).Freed := by
  have clean := (run_sound exampleLife_run exampleLife_sane).clean
  have finished := server_objects_freed_iff exampleLife_run clean rfl
    (List.forall_mem_singleton.mpr rfl)
  refine finished.mpr ?_
  refine ⟨trivial, trivial, trivial, Option.some_ne_none _, trivial, ?_⟩
  exact ⟨trivial, trivial, trivial, trivial, trivial, trivial, trivial, trivial, trivial, trivial,
    trivial, trivial⟩

end Solusek.Objects
