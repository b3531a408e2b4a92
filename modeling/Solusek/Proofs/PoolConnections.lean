import Solusek.Proofs.PoolHandlers

/-!
# The connections of the pool

An instance that `open` returns is connected to what the connection string says, whatever has been
opened, given back and deleted before.
-/

namespace Solusek.Handlers

open Transaction Database Transition

/-- The handler of an instance, when its `open` has gone well and it has not been closed. -/
def Connected (backend : Backend) (p : Pool) (id : Nat) (ConnectionString : Str) : Prop :=
  ∃ H C, (id, H) ∈ p.handlers ∧ H.C = some C ∧
    p.lib.callsOn C = opening backend ConnectionString C

structure Sound (backend : Backend) (p : Pool) : Prop where
  books : Books p
  pool : ∃ deleted, Record.Sound { db := p.db, deleted }
  drawn : ∀ it ∈ p.handlers, it.1 < p.db.Counter
  connected : ∀ i ∈ p.db.Instances, Connected backend p i.ID i.ConnectionString

/-- A handle that nobody is going to close. -/
def Stray (p : Pool) (C : Nat) : Prop := ∃ it ∈ p.handlers, it.2.C = some C ∧ it.1 ∉ p.ids

variable {backend : Backend}

theorem sound_new : Sound backend .new where
  books := books_new
  pool := ⟨[], Record.new_sound⟩
  drawn _ member := absurd member List.not_mem_nil
  connected _ member := absurd member List.not_mem_nil

theorem open_reuses {p : Pool} {i : CDatabaseInstance} (now : Int) (answers : Answers)
    (found : p.db.getUnusedInstance p.db.ConnectionString = some i) :
    p.open backend now answers = (.ok i.ID, p) := by
  unfold Pool.open
  rw [found]
  rfl

/-- What the `open` of a new instance adds to the pool. -/
theorem open_makes (p : Pool) (now : Int) (answers : Answers)
    (absent : p.db.getUnusedInstance p.db.ConnectionString = none) :
    (∃ e, p.open backend now answers = (.error e,
        { p with
          db := (p.db.open now false).2
          handlers := p.handlers ++
            [(p.db.Counter, { ConnectionString := p.db.ConnectionString })] }) ∧
      ¬ Spoils backend p.db.ConnectionString answers) ∨
    ∃ connected calls,
      (connected = true → calls = opening backend p.db.ConnectionString p.lib.made) ∧
      (connected = false ↔ Spoils backend p.db.ConnectionString answers) ∧
      (∀ call ∈ calls, call.handle = p.lib.made ∧ call ≠ .close p.lib.made) ∧
      p.open backend now answers = ((p.db.open now connected).1,
        { db := (p.db.open now connected).2
          handlers := p.handlers ++ [(p.db.Counter, { C := some p.lib.made
                                                      ConnectionString := p.db.ConnectionString })]
          lib := { made := p.lib.made + 1, calls := p.lib.calls ++ calls } }) := by
  rcases open_cases backend p.db.ConnectionString answers p.lib with
    ⟨opened, clean⟩ | ⟨connected, calls, good, spoils, own, opened⟩
  · refine Or.inl ⟨.runtimeError "Failed to open connection to database.".toList, ?_, clean⟩
    unfold Pool.open
    rw [absent]
    simp only [opened]
    rw [open_fresh now false absent]
    rfl
  · refine Or.inr ⟨connected, calls, good, spoils, own, ?_⟩
    unfold Pool.open
    rw [absent]
    simp only [opened]

theorem key_fresh {p : Pool} (drawn : ∀ it ∈ p.handlers, it.1 < p.db.Counter)
    (books : Books p) (H : CDatabaseHandler) :
    ((p.handlers ++ [(p.db.Counter, H)]).map Prod.fst).Nodup := by
  rw [List.map_append, List.nodup_append]
  refine ⟨books.keys, List.nodup_singleton _, fun id old id' new same => ?_⟩
  obtain ⟨it, member, rfl⟩ := List.mem_map.mp old
  have bound := drawn it member
  rw [List.map_singleton, List.mem_singleton] at new
  omega

/-- An instance without a handle. -/
theorem Sound.books_bare {p : Pool} (sound : Sound backend p) (db : CDatabase) :
    Books { p with
      db := db
      handlers := p.handlers ++
        [(p.db.Counter, { ConnectionString := p.db.ConnectionString })] } := by
  obtain ⟨keys, apart, held, rest, fresh⟩ := sound.books
  have old {it : Nat × CDatabaseHandler} {C : Nat} (has : it.2.C = some C)
      (member : it ∈ p.handlers ++ [(p.db.Counter,
        { ConnectionString := p.db.ConnectionString })]) : it ∈ p.handlers := by
    rcases List.mem_append.mp member with here | new
    · exact here
    · rw [List.mem_singleton.mp new] at has
      cases has
  refine ⟨key_fresh sound.drawn sound.books _, fun it member it' member' C has has' => ?_,
    fun it member C has => held it (old has member) C has, fun C below => ?_, fresh⟩
  · exact apart it (old has member) it' (old has' member') C has has'
  · rcases rest C below with ⟨it, member, has⟩ | closed
    · exact Or.inl ⟨it, List.mem_append_left _ member, has⟩
    · exact Or.inr closed

/-- An instance with a new handle. -/
theorem Sound.books_made {p : Pool} (sound : Sound backend p) (db : CDatabase)
    {calls : List LibraryCall}
    (own : ∀ call ∈ calls, call.handle = p.lib.made ∧ call ≠ .close p.lib.made) :
    let lib : Library := { made := p.lib.made + 1, calls := p.lib.calls ++ calls }
    Books { db := db
            handlers := p.handlers ++ [(p.db.Counter,
              { C := some p.lib.made, ConnectionString := p.db.ConnectionString })]
            lib := lib } ∧
    (∀ C < p.lib.made, lib.callsOn C = p.lib.callsOn C) ∧ lib.callsOn p.lib.made = calls := by
  intro lib
  obtain ⟨keys, apart, held, rest, fresh⟩ := sound.books
  have other (C : Nat) (apart : p.lib.made ≠ C) : lib.callsOn C = p.lib.callsOn C := by
    have untouched : calls.filter (·.handle = C) = [] := List.filter_eq_nil_iff.mpr fun call member => by
      rw [(own call member).1]
      simpa using apart
    show (p.lib.calls ++ calls).filter (·.handle = C) = _
    rw [List.filter_append, untouched, List.append_nil]
    rfl
  have mine : lib.callsOn p.lib.made = calls := by
    have all : calls.filter (·.handle = p.lib.made) = calls :=
      List.filter_eq_self.mpr fun call member => decide_eq_true (own call member).1
    have untouched : p.lib.calls.filter (·.handle = p.lib.made) = [] := fresh p.lib.made le_rfl
    show (p.lib.calls ++ calls).filter (·.handle = p.lib.made) = _
    rw [List.filter_append, untouched, all, List.nil_append]
  have closes (C : Nat) (apart : p.lib.made ≠ C) : lib.closes C = p.lib.closes C := by
    rw [Library.closes_callsOn, other C apart, ← Library.closes_callsOn]
  refine ⟨⟨key_fresh sound.drawn sound.books _, fun it member it' member' C has has' => ?_,
    fun it member C has => ?_, fun C below => ?_, fun C late => ?_⟩,
    fun C below => other C below.ne', mine⟩
  · have bounded {it : Nat × CDatabaseHandler} (member : it ∈ p.handlers) {C : Nat}
        (has : it.2.C = some C) : C ≠ p.lib.made := (held it member C has).1.ne
    rcases List.mem_append.mp member with old | new <;>
      rcases List.mem_append.mp member' with old' | new'
    · exact apart it old it' old' C has has'
    · rw [List.mem_singleton.mp new'] at has'
      exact absurd (Option.some.inj has').symm (bounded old has)
    · rw [List.mem_singleton.mp new] at has
      exact absurd (Option.some.inj has).symm (bounded old' has')
    · rw [List.mem_singleton.mp new, List.mem_singleton.mp new']
  · rcases List.mem_append.mp member with old | new
    · obtain ⟨bound, unclosed⟩ := held it old C has
      exact ⟨bound.trans (Nat.lt_succ_self _), (closes C bound.ne').trans unclosed⟩
    · rw [List.mem_singleton.mp new] at has
      obtain rfl := Option.some.inj has
      refine ⟨Nat.lt_succ_self _, ?_⟩
      rw [Library.closes_callsOn, mine]
      exact List.count_eq_zero.mpr fun inside => (own _ inside).2 rfl
  · by_cases new : p.lib.made = C
    · subst new
      exact Or.inl ⟨_, List.mem_append_right _ List.mem_cons_self, rfl⟩
    · have bound : C < p.lib.made := by
        have limit : C < p.lib.made + 1 := below
        omega
      rcases rest C bound with ⟨it, member, has⟩ | closed
      · exact Or.inl ⟨it, List.mem_append_left _ member, has⟩
      · exact Or.inr ((closes C new).trans closed)
  · have bound : p.lib.made + 1 ≤ C := late
    rw [other C (by omega)]
    exact fresh C (by omega)

theorem Connected.kept {p q : Pool} {id : Nat} {cs : Str} (connected : Connected backend p id cs)
    (books : Books p) (handlers : ∀ it ∈ p.handlers, it ∈ q.handlers)
    (calls : ∀ C < p.lib.made, q.lib.callsOn C = p.lib.callsOn C) :
    Connected backend q id cs := by
  obtain ⟨H, C, inside, has, opened⟩ := connected
  exact ⟨H, C, handlers _ inside, has, (calls C (books.held _ inside C has).1).trans opened⟩

theorem Sound.open {p : Pool} (sound : Sound backend p) (now : Int) (answers : Answers) :
    Sound backend (p.open backend now answers).2 := by
  obtain ⟨deleted, pool⟩ := sound.pool
  cases found : p.db.getUnusedInstance p.db.ConnectionString with
  | some i =>
    rw [open_reuses now answers found]
    exact sound
  | none =>
    have counted (connected : Bool) : (p.db.open now connected).2.Counter = p.db.Counter + 1 := by
      rw [open_fresh now connected found]
      split <;> rfl
    have drawn {H : CDatabaseHandler} {db : CDatabase} (counter : db.Counter = p.db.Counter + 1) :
        ∀ it ∈ p.handlers ++ [(p.db.Counter, H)], it.1 < db.Counter := by
      intro it member
      rw [counter]
      rcases List.mem_append.mp member with old | new
      · exact Nat.lt_succ_of_lt (sound.drawn it old)
      · rw [List.mem_singleton.mp new]
        exact Nat.lt_succ_self _
    rcases open_makes p now answers found with
      ⟨e, opened, _⟩ | ⟨connected, calls, good, _, own, opened⟩
    · rw [opened]
      refine ⟨sound.books_bare _, ⟨deleted, Record.open_sound pool now false⟩,
        drawn (counted false), fun i member => ?_⟩
      have same : (p.db.open now false).2.Instances = p.db.Instances := by
        rw [open_fresh now false found]
        rfl
      exact (sound.connected i (same ▸ member)).kept sound.books
        (fun it inside => List.mem_append_left _ inside) fun _ _ => rfl
    · obtain ⟨books, before, mine⟩ := sound.books_made (p.db.open now connected).2 own
      rw [opened]
      refine ⟨books, ⟨deleted, Record.open_sound pool now connected⟩, drawn (counted connected),
        fun i member => ?_⟩
      cases connected with
      | false =>
        have same : (p.db.open now false).2.Instances = p.db.Instances := by
          rw [open_fresh now false found]
          rfl
        exact (sound.connected i (same ▸ member)).kept sound.books
          (fun it inside => List.mem_append_left _ inside) before
      | true =>
        have grown : (p.db.open now true).2.Instances = p.db.Instances ++
            [CDatabaseInstance.new p.db.Counter now p.db.ConnectionString true] := by
          rw [open_fresh now true found]
          rfl
        rcases List.mem_append.mp (grown ▸ member) with old | new
        · exact (sound.connected i old).kept sound.books
            (fun it inside => List.mem_append_left _ inside) before
        · rw [List.mem_singleton.mp new, new_connected]
          exact ⟨_, p.lib.made, List.mem_append_right _ List.mem_cons_self, rfl,
            mine.trans (good rfl)⟩

theorem Sound.delete {p : Pool} (sound : Sound backend p) {db : CDatabase} {gone : List Nat}
    (pool : ∃ deleted, Record.Sound { db := db, deleted }) (counter : db.Counter = p.db.Counter)
    (left : ∀ i ∈ db.Instances, i ∈ p.db.Instances ∧ i.ID ∉ gone) :
    Sound backend (gone.foldl Pool.delete { p with db := db }) := by
  have books : Books { p with db := db } :=
    ⟨sound.books.keys, sound.books.apart, sound.books.held, sound.books.rest, sound.books.fresh⟩
  obtain ⟨last, same, handlers, calls⟩ := deletes_books books gone
  refine ⟨last, same ▸ pool, fun it member => ?_, fun i member => ?_⟩
  · rw [handlers] at member
    rw [same]
    exact (sound.drawn it (List.mem_filter.mp member).1).trans_eq counter.symm
  · rw [same] at member
    obtain ⟨old, spared⟩ := left i member
    obtain ⟨H, C, inside, has, opened⟩ := sound.connected i old
    have kept : (i.ID, H) ∈ (gone.foldl Pool.delete { p with db := db }).handlers := by
      rw [handlers]
      exact List.mem_filter.mpr ⟨inside, decide_eq_true spared⟩
    exact ⟨H, C, kept, has, (calls _ kept C has).trans opened⟩

theorem Sound.step {p q : Pool} {call : Call} (sound : Sound backend p)
    (taken : Pool.Step backend p call q) : Sound backend q := by
  obtain ⟨allowed, rfl⟩ := taken
  obtain ⟨deleted, pool⟩ := sound.pool
  cases call with
  | setConnectionString cs =>
    obtain ⟨once, drawn, connected⟩ := pool
    exact ⟨⟨sound.books.keys, sound.books.apart, sound.books.held, sound.books.rest,
      sound.books.fresh⟩, ⟨deleted, once, drawn, connected⟩, sound.drawn, sound.connected⟩
  | openInstance now answers => exact sound.open now answers
  | dispose id =>
    refine ⟨⟨sound.books.keys, sound.books.apart, sound.books.held, sound.books.rest,
      sound.books.fresh⟩, ⟨deleted, Record.dispose_sound pool id⟩, sound.drawn,
      fun i member => ?_⟩
    obtain ⟨j, present, rfl⟩ := List.mem_map.mp member
    have before := sound.connected j present
    split <;> exact before
  | pass now =>
    have passed := Record.pass_sound pool now
    simp only [Record.next] at passed
    simp only [Pool.next, Pool.poolThread]
    refine sound.delete ⟨_, passed⟩ (by rw [poolThread_eq]) fun i member => ?_
    rw [poolThread_eq] at member ⊢
    obtain ⟨old, fresh⟩ := List.mem_filter.mp member
    refine ⟨old, fun gone => ?_⟩
    obtain ⟨j, expired, same⟩ := List.mem_map.mp gone
    obtain ⟨present, late⟩ := List.mem_filter.mp expired
    have once := (List.nodup_append.mp pool.once).2.1
    obtain rfl := List.inj_on_of_nodup_map once present old same
    exact absurd (of_decide_eq_true late) (of_decide_eq_true fresh)
  | closeAll =>
    exact sound.delete ⟨_, Record.closeAll_sound pool⟩ rfl
      fun i member => absurd member List.not_mem_nil

theorem run_sound {calls : List Call} {p : Pool}
    (run : Runs (Pool.Step backend) .new calls p) : Sound backend p :=
  run.invariant sound_new Sound.step

/-- Whatever has happened to the pool before, an instance that `open` returns is connected to what
the connection string says, and has not been closed. -/
theorem open_connected {calls : List Call} {p q : Pool}
    (run : Runs (Pool.Step backend) .new calls p) {now : Int} {answers : Answers} {id : Nat}
    (opened : p.open backend now answers = (.ok id, q)) :
    Connected backend q id p.db.ConnectionString := by
  have sound := run_sound run
  have after := sound.open now answers
  rw [opened] at after
  obtain ⟨connected, ran⟩ : ∃ connected, p.db.open now connected = (.ok id, q.db) := by
    cases found : p.db.getUnusedInstance p.db.ConnectionString with
    | some i =>
      rw [open_reuses now answers found] at opened
      obtain ⟨same, rfl⟩ := Prod.mk.inj opened
      exact ⟨true, by rw [open_reuse now true found, same]⟩
    | none =>
      rcases open_makes p now answers found with
        ⟨e, other, _⟩ | ⟨connected, calls, _, _, _, other⟩
      · rw [other] at opened
        cases opened
      · rw [other] at opened
        obtain ⟨same, rfl⟩ := Prod.mk.inj opened
        exact ⟨connected, Prod.ext same rfl⟩
  rcases open_returns p.db now connected with ⟨e, failed⟩ | ⟨i, member, returned, string⟩
  · rw [ran] at failed
    cases failed
  · rw [ran] at member returned
    obtain rfl := Except.ok.inj returned
    rw [← string]
    exact after.connected i member

def examplePool : Pool :=
  { db := CDatabase.new.setConnectionString "mysql://joe:pw@db/shop".toList }

theorem examplePool_run :
    Runs (Pool.Step .mysql) .new [.setConnectionString "mysql://joe:pw@db/shop".toList]
      examplePool :=
  .single ⟨trivial, rfl⟩

theorem open_connected_first :
    Connected .mysql (examplePool.open .mysql 5 { init := true, connect := true, select := true }).2
      1 "mysql://joe:pw@db/shop".toList := by
  have first : (examplePool.open .mysql 5
      { init := true, connect := true, select := true }).1 = .ok 1 := by decide
  exact open_connected examplePool_run (Prod.ext first rfl)

end Solusek.Handlers
