import Solusek.Lib.Runs
import Solusek.Proofs.ServerDestructor

/-!
# The life of a server

From the constructor to the destructor: which runs of the program, the accept loop and the node
threads use nothing that is not there.
-/

namespace Solusek.Objects

open Lifetimes Session Transition

namespace Sound

variable {s : State}

/-- A sane action keeps everything in its place. -/
theorem step (sound : Sound s) {a : Action} (allowed : s.Allowed a) (sane : s.Sane a) :
    Sound (s.next a) := by
  cases a with
  | call call => exact sound.call allowed sane
  | accept socket => exact sound.accept socket
  | drop c =>
    obtain ⟨socket, found⟩ := allowed
    simp only [State.Sane, found] at sane
    rw [next_drop found]
    exact sound.drop found sane
  | create c route =>
    obtain ⟨socket, found⟩ := allowed
    rw [next_create found]
    exact sound.create found route
  | assign c =>
    obtain ⟨socket, r, todo, found⟩ := allowed
    rw [next_assign found]
    exact sound.assign found
  | thread c =>
    obtain ⟨socket, r, step, rest, found⟩ := allowed
    simp only [State.Sane, found] at sane
    obtain ⟨wired, standing⟩ := sane
    rw [next_thread found]
    exact sound.thread found wired standing
  | finish => exact ⟨sound.nobody, sound.lives, sound.kept.frame _ _ _ _⟩
  | dispose =>
    obtain ⟨empty, once⟩ := sane
    exact sound.dispose allowed.1 empty ((disposal_nodup sound.kept.formed).mpr once)

/-- An action that is not sane touches what is not there. -/
theorem sane_of_clean (sound : Sound s) {a : Action} (allowed : s.Allowed a)
    (clean : (s.next a).Clean) : s.Sane a := by
  cases a with
  | call call =>
    cases call with
    | loadConfig file =>
      rintro rfl
      have gone := sound.nobody_clean (l := [use .server, new (.config s.configs.length),
        .released none, delete (.config s.configs.length)]) clean (by simp)
      simp [part_cons, Event.object, Object.owner] at gone
    | _ => trivial
  | drop c =>
    obtain ⟨socket, found⟩ := allowed
    simp only [State.Sane, found]
    cases socket with
    | true => rfl
    | false =>
      have happened : (s.next (.drop c)).log = s.log ++ [.used none, .released none] := by
        rw [next_drop found]
        rfl
      unfold State.Clean at clean
      rw [happened] at clean
      have gone := sound.nobody_clean clean (by simp)
      simp [part_cons, Event.object] at gone
  | thread c =>
    obtain ⟨socket, r, step, rest, found⟩ := allowed
    simp only [State.Sane, found]
    have happened : (s.next (.thread c)).log = s.log ++
        r.happens c (Connection.Socket ⟨socket, .serving true r (step :: rest)⟩ c) step := by
      rw [next_thread found]
      cases step <;> rfl
    unfold State.Clean at clean
    rw [happened] at clean
    refine ⟨(happens_nobody r c _ step).mp (sound.nobody_clean clean (happens_made r c _ step)),
      fun on => ?_⟩
    have fine := server_fine clean
    rw [happens_server, on, if_pos rfl, each_append, List.nil_append, each_fine_uses,
      List.forall_mem_singleton] at fine
    exact sound.kept.live_server.mp fine.2
  | dispose =>
    obtain ⟨l, log, unmade, nobody, server, _⟩ := dispose_log sound.kept.formed
    have clean' : Each Fine [] (s.log ++ l) := log ▸ clean
    refine ⟨nobody.mp (sound.nobody_clean clean' unmade), ?_⟩
    have fine := server_fine clean'
    rw [server, ← List.append_assoc] at fine
    exact (disposal_nodup sound.kept.formed).mp ((sound.kept.dispose_fine allowed.1).mp fine)
  | _ => trivial

end Sound

/-! ### Whole runs -/

theorem sound_start : Sound State.start := by
  refine ⟨rfl, fun c => ⟨[], ?_, rfl⟩, ?_⟩
  · exact rfl
  · have books : Books ([] ++ [some Object.server, some Object.database].map .made)
        State.start.Held fun _ => False := by
      refine Books.start.makes (i := ()) (by simp) (by simp) fun _ o => ?_
      rcases o with _ | o
      · simp [State.Held, State.Has]
      · cases o <;> simp [State.Held, State.Has, State.start, SessionTable.new, itemsOf]
    · refine ⟨?_, books.congr (fun _ _ => Iff.rfl) fun o => ?_, fun o made => ?_, ?_⟩
      · exact each_fine_makes (l := [some Object.server, some Object.database]) (by simp) (by simp)
      · rcases o with _ | o
        · exact Iff.rfl
        · cases o <;> simp [State.Lost, State.start, SessionTable.new, itemsOf]
      · obtain ⟨there, _⟩ := mem_part.mp made
        rcases o with _ | o <;> simp [State.start] at there
        rcases there with rfl | rfl <;> trivial
      · refine ⟨fun c same => ?_, fun e => ?_, rfl, List.nodup_nil, List.forall_mem_nil _,
          fun p ses found => ?_⟩
        · cases same
        · exact ⟨fun member => absurd member List.not_mem_nil,
            fun below => absurd below (Nat.not_lt_zero e)⟩
        · cases found

theorem log_grows (s : State) (a : Action) : ∃ l, (s.next a).log = s.log ++ l := by
  have same : s.log = s.log ++ [] := (List.append_nil _).symm
  cases a with
  | call call =>
    cases call with
    | loadConfig file =>
      show ∃ l, (s.loadConfig file).log = s.log ++ l
      unfold State.loadConfig
      split
      · exact ⟨_, rfl⟩
      · split
        · exact ⟨_, same⟩
        · exact ⟨_, rfl⟩
    | registerEndpoint e =>
      show ∃ l, (s.registerEndpoint e).log = s.log ++ l
      unfold State.registerEndpoint
      split <;> exact ⟨_, rfl⟩
    | setStringValue p name value =>
      show ∃ l, (s.setStringValue p name value).log = s.log ++ l
      unfold State.setStringValue
      split
      · exact ⟨_, same⟩
      · exact ⟨_, rfl⟩
    | getStringValue p name =>
      show ∃ l, (s.getStringValue p name).log = s.log ++ l
      unfold State.getStringValue
      split
      · exact ⟨_, same⟩
      · exact ⟨_, rfl⟩
    | _ => exact ⟨_, rfl⟩
  | drop c =>
    dsimp only [State.next]
    split
    · exact ⟨_, rfl⟩
    · exact ⟨_, same⟩
  | create c route =>
    dsimp only [State.next]
    split
    · cases route <;> exact ⟨_, rfl⟩
    · exact ⟨_, same⟩
  | assign c =>
    dsimp only [State.next]
    split
    · exact ⟨_, rfl⟩
    · exact ⟨_, same⟩
  | thread c =>
    dsimp only [State.next]
    split
    · rename_i step rest _
      cases step <;> exact ⟨_, rfl⟩
    · exact ⟨_, same⟩
  | accept socket => exact ⟨_, rfl⟩
  | finish => exact ⟨_, same⟩
  | dispose => exact ⟨_, rfl⟩

theorem run_eq {as : List Action} {s : State} (run : Runs State.Step .start as s) :
    s = as.foldl State.next .start := by
  induction run with
  | nil => rfl
  | snoc _ last ih => rw [List.foldl_append, ← ih, last.2]; rfl

theorem run_sound {as : List Action} {s : State} (run : Runs State.Step .start as s)
    (sane : Each (fun pre a => (pre.foldl State.next .start).Sane a) [] as) : Sound s := by
  induction run with
  | nil => exact sound_start
  | @snoc as t u a before last ih =>
    obtain ⟨first, now, _⟩ := (each_append _ _ _ _).mp sane
    have now' : (([] ++ as).foldl State.next .start).Sane _ := now
    rw [List.nil_append, ← run_eq before] at now'
    exact last.2 ▸ (ih first).step last.1 now'

theorem run_sane {as : List Action} {s : State} (run : Runs State.Step .start as s)
    (clean : s.Clean) : Each (fun pre a => (pre.foldl State.next .start).Sane a) [] as := by
  induction run with
  | nil => trivial
  | @snoc as t u a before last ih =>
    obtain ⟨l, grows⟩ := log_grows t a
    have clean' : (t.next a).Clean := last.2 ▸ clean
    have first : t.Clean := by
      unfold State.Clean at clean'
      rw [grows] at clean'
      exact each_prefix clean'
    have sane := ih first
    refine (each_append _ _ _ _).mpr ⟨sane, ?_, trivial⟩
    show (([] ++ as).foldl State.next .start).Sane a
    rw [List.nil_append, ← run_eq before]
    exact (run_sound before sane).sane_of_clean last.1 clean'

/-- Whatever a program calls, and in whichever order its accept loop and its node threads take
their steps: nothing that has gone is used or deleted, and nothing that was never there, exactly if
each action is sane. -/
theorem server_objects_clean_iff {as : List Action} {s : State} (run : Runs State.Step .start as s) :
    s.Clean ↔ Each (fun pre a => (pre.foldl State.next .start).Sane a) [] as :=
  ⟨run_sane run, fun sane => (run_sound run sane).clean⟩

def pageRoute : Route := { header := .ok "/".toList, found := .staticEndpoint, sent := true, headers := 1 }

/-- A page is served, and the server ends. -/
def exampleLife : List Action :=
  [.call (.registerEndpoint 0), .call (.startSession 1), .accept true, .create 0 (some pageRoute),
    .assign 0, .thread 0, .thread 0, .thread 0, .thread 0, .thread 0, .thread 0, .thread 0, .thread 0,
    .thread 0, .finish, .dispose]

theorem exampleLife_run :
    Runs State.Step .start exampleLife (exampleLife.foldl State.next .start) := by
  refine Follows.runs
    ⟨⟨rfl, Nat.le_refl 0⟩, ⟨rfl, trivial⟩, ⟨rfl, rfl⟩, ⟨_, rfl⟩, ⟨_, _, _, rfl⟩, ?_⟩
  refine ⟨⟨_, _, _, _, rfl⟩, ⟨_, _, _, _, rfl⟩, ⟨_, _, _, _, rfl⟩, ⟨_, _, _, _, rfl⟩,
    ⟨_, _, _, _, rfl⟩, ⟨_, _, _, _, rfl⟩, ⟨_, _, _, _, rfl⟩, ⟨_, _, _, _, rfl⟩,
    ⟨_, _, _, _, rfl⟩, ?_⟩
  exact ⟨⟨rfl, List.forall_mem_singleton.mpr rfl⟩, ⟨rfl, Or.inl rfl⟩, trivial⟩

theorem exampleLife_sane :
    Each (fun pre a => (pre.foldl State.next .start).Sane a) [] exampleLife := by
  refine ⟨trivial, trivial, trivial, trivial, trivial, ?_⟩
  refine ⟨⟨fun _ => rfl, fun _ => rfl⟩, ⟨fun _ => rfl, fun _ => rfl⟩, ⟨fun _ => rfl, fun _ => rfl⟩,
    ⟨fun _ => rfl, fun _ => rfl⟩, ⟨fun _ => rfl, fun _ => rfl⟩, ⟨fun _ => rfl, fun _ => rfl⟩,
    ⟨fun _ => rfl, fun _ => rfl⟩, ⟨fun _ => rfl, fun _ => rfl⟩, ⟨fun _ => rfl, fun _ => rfl⟩, ?_⟩
  refine ⟨trivial, ⟨rfl, List.nodup_singleton _, ?_⟩, trivial⟩
  exact List.forall_mem_singleton.mpr List.nodup_nil

theorem server_objects_clean_iff_page : (exampleLife.foldl State.next .start).Clean :=
  (server_objects_clean_iff exampleLife_run).mpr exampleLife_sane

end Solusek.Objects
