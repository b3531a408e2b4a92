import Solusek.Proofs.PoolConnections

/-!
# Handles that are lost

A connection is closed once, unless its `open` has failed behind `mysql_init`; such a handle is never
closed.
-/

namespace Solusek.Handlers

open Transaction Database Transition

variable {backend : Backend}

/-- The call makes an instance whose `open` fails behind `mysql_init`. -/
def Loses (backend : Backend) (p : Pool) (call : Call) : Prop :=
  ∃ now answers, call = .openInstance now answers ∧
    p.db.getUnusedInstance p.db.ConnectionString = none ∧
    Spoils backend p.db.ConnectionString answers

theorem stray_delete {p : Pool} (sound : Sound backend p) {db : CDatabase} {gone : List Nat}
    (known : ∀ id ∈ gone, id ∈ p.ids)
    (left : ∀ id, id ∈ db.Instances.map (·.ID) ↔ id ∈ p.ids ∧ id ∉ gone) (C : Nat) :
    Stray (gone.foldl Pool.delete { p with db := db }) C ↔ Stray p C := by
  have books : Books { p with db := db } :=
    ⟨sound.books.keys, sound.books.apart, sound.books.held, sound.books.rest, sound.books.fresh⟩
  obtain ⟨_, same, handlers, _⟩ := deletes_books books gone
  unfold Stray
  simp only [handlers, Pool.ids, same, List.mem_filter, decide_eq_true_eq, left]
  constructor
  · rintro ⟨it, ⟨member, spared⟩, has, outside⟩
    exact ⟨it, member, has, fun inside => outside ⟨inside, spared⟩⟩
  · rintro ⟨it, member, has, outside⟩
    exact ⟨it, ⟨member, fun inside => outside (known _ inside)⟩, has, fun both => outside both.1⟩

theorem closeAll_ids (db : CDatabase) (id : Nat) :
    id ∈ db.closeAll.2 ↔ id ∈ db.Instances.map (·.ID) := by
  simp [CDatabase.closeAll, CDatabaseInstance.getID]

theorem stray_closeAll {p : Pool} (sound : Sound backend p) (C : Nat) :
    Stray p.closeAll C ↔ Stray p C :=
  stray_delete sound (fun id member => (closeAll_ids p.db id).mp member)
    (fun id => ⟨fun member => absurd member List.not_mem_nil,
      fun both => absurd ((closeAll_ids p.db id).mpr both.1) both.2⟩) C

theorem stray_pass {p : Pool} (sound : Sound backend p) (now : Nat → Int) (C : Nat) :
    Stray (p.poolThread now) C ↔ Stray p C := by
  obtain ⟨deleted, pool⟩ := sound.pool
  have once := (List.nodup_append.mp pool.once).2.1
  apply @stray_delete _ p sound (p.db.poolThread now).1 (p.db.poolThread now).2
  · intro id member
    rw [poolThread_eq] at member
    obtain ⟨i, expired, rfl⟩ := List.mem_map.mp member
    exact List.mem_map_of_mem (List.mem_filter.mp expired).1
  · intro id
    rw [poolThread_eq]
    constructor
    · intro member
      obtain ⟨i, kept, rfl⟩ := List.mem_map.mp member
      obtain ⟨present, fresh⟩ := List.mem_filter.mp kept
      refine ⟨List.mem_map_of_mem present, fun gone => ?_⟩
      obtain ⟨j, expired, same⟩ := List.mem_map.mp gone
      obtain ⟨present', late⟩ := List.mem_filter.mp expired
      obtain rfl := List.inj_on_of_nodup_map once present' present same
      exact absurd (of_decide_eq_true late) (of_decide_eq_true fresh)
    · rintro ⟨inside, spared⟩
      obtain ⟨i, present, rfl⟩ := List.mem_map.mp inside
      refine List.mem_map_of_mem (List.mem_filter.mpr ⟨present, decide_eq_true fun late => ?_⟩)
      exact spared (List.mem_map_of_mem (List.mem_filter.mpr ⟨present, decide_eq_true late⟩))

theorem stray_open {p : Pool} (sound : Sound backend p) (now : Int) (answers : Answers) :
    (∃ C, Stray (p.open backend now answers).2 C) ↔
      (∃ C, Stray p C) ∨ Loses backend p (.openInstance now answers) := by
  have loses : Loses backend p (.openInstance now answers) ↔
      p.db.getUnusedInstance p.db.ConnectionString = none ∧
        Spoils backend p.db.ConnectionString answers := by
    constructor
    · rintro ⟨now', answers', same, both⟩
      obtain ⟨rfl, rfl⟩ := Call.openInstance.inj same
      exact both
    · exact fun both => ⟨now, answers, rfl, both⟩
  rw [loses]
  cases found : p.db.getUnusedInstance p.db.ConnectionString with
  | some i =>
    rw [open_reuses now answers found]
    simp
  | none =>
    have failed : (p.db.open now false).2.Instances = p.db.Instances := by
      rw [open_fresh now false found]
      rfl
    have unlisted : p.db.Counter ∉ p.ids := by
      obtain ⟨deleted, pool⟩ := sound.pool
      exact fun inside => Nat.lt_irrefl _ (pool.drawn _ (List.mem_append_right _ inside))
    rcases open_makes p now answers found with
      ⟨e, opened, clean⟩ | ⟨connected, calls, _, spoils, _, opened⟩
    · rw [opened]
      simp only [Stray, Pool.ids, failed, true_and, clean, or_false]
      constructor
      · rintro ⟨C, it, member, has, outside⟩
        rcases List.mem_append.mp member with old | new
        · exact ⟨C, it, old, has, outside⟩
        · rw [List.mem_singleton.mp new] at has
          cases has
      · rintro ⟨C, it, member, has, outside⟩
        exact ⟨C, it, List.mem_append_left _ member, has, outside⟩
    · rw [opened]
      cases connected with
      | false =>
        have lost : Spoils backend p.db.ConnectionString answers := spoils.mp rfl
        simp only [lost, and_self, or_true, iff_true]
        refine ⟨p.lib.made, _, List.mem_append_right _ List.mem_cons_self, rfl, ?_⟩
        rw [Pool.ids, failed]
        exact unlisted
      | true =>
        have clean : ¬ Spoils backend p.db.ConnectionString answers := fun bad => by
          have never := spoils.mpr bad
          cases never
        have grown : (p.db.open now true).2.Instances.map (·.ID) = p.ids ++ [p.db.Counter] := by
          rw [open_fresh now true found, if_pos rfl, new_connected, List.map_append]
          rfl
        simp only [Stray, Pool.ids, grown, true_and, clean, or_false]
        constructor
        · rintro ⟨C, it, member, has, outside⟩
          rw [List.mem_append, not_or] at outside
          rcases List.mem_append.mp member with old | new
          · exact ⟨C, it, old, has, outside.1⟩
          · rw [List.mem_singleton.mp new] at outside
            exact absurd List.mem_cons_self outside.2
        · rintro ⟨C, it, member, has, outside⟩
          refine ⟨C, it, List.mem_append_left _ member, has, fun inside => ?_⟩
          rcases List.mem_append.mp inside with old | new
          · exact outside old
          · have bound := sound.drawn it member
            rw [List.mem_singleton.mp new] at bound
            exact Nat.lt_irrefl _ bound

theorem stray_step {p q : Pool} {call : Call} (sound : Sound backend p)
    (taken : Pool.Step backend p call q) :
    (∃ C, Stray q C) ↔ (∃ C, Stray p C) ∨ Loses backend p call := by
  obtain ⟨allowed, rfl⟩ := taken
  have never (other : ∀ now answers, call ≠ .openInstance now answers) : ¬ Loses backend p call :=
    fun ⟨now, answers, same, _⟩ => other now answers same
  cases call with
  | openInstance now answers => exact stray_open sound now answers
  | setConnectionString cs =>
    rw [or_iff_left (never nofun)]
    rfl
  | dispose id =>
    rw [or_iff_left (never nofun)]
    have same : (p.next backend (.dispose id)).ids = p.ids := disposeInstance_ids p.db id
    simp only [Stray, same]
    rfl
  | pass now =>
    rw [or_iff_left (never nofun)]
    exact exists_congr fun C => stray_pass sound now C
  | closeAll =>
    rw [or_iff_left (never nofun)]
    exact exists_congr fun C => stray_closeAll sound C

theorem run_state {calls : List Call} {p : Pool}
    (run : Runs (Pool.Step backend) .new calls p) : p = calls.foldl (Pool.next backend) .new := by
  induction run with
  | nil => rfl
  | snoc _ last ih => rw [List.foldl_append, ← ih, last.2]; rfl

theorem stray_run {calls : List Call} {p : Pool}
    (run : Runs (Pool.Step backend) .new calls p) :
    (∃ C, Stray p C) ↔ ∃ pre call post, calls = pre ++ call :: post ∧
      Loses backend (pre.foldl (Pool.next backend) .new) call := by
  induction run with
  | nil =>
    constructor
    · rintro ⟨C, it, member, _⟩
      exact absurd member List.not_mem_nil
    · rintro ⟨pre, call, post, whole, _⟩
      simp at whole
  | @snoc calls p q call before last ih =>
    rw [stray_step (run_sound before) last, ih, run_state before]
    constructor
    · rintro (⟨pre, a, post, rfl, lost⟩ | lost)
      · exact ⟨pre, a, post ++ [call], by simp, lost⟩
      · exact ⟨calls, call, [], rfl, lost⟩
    · rintro ⟨pre, a, post, whole, lost⟩
      rcases List.eq_nil_or_concat post with rfl | ⟨post, c, rfl⟩
      · obtain ⟨rfl, same⟩ := List.append_inj' whole rfl
        rw [(List.cons.inj same).1]
        exact Or.inr lost
      · rw [List.concat_eq_append, ← List.cons_append, ← List.append_assoc] at whole
        exact Or.inl ⟨pre, a, post, (List.append_inj' whole rfl).1, lost⟩

/-- When the pool is given up, no connection has been closed twice, and each one has been closed,
exactly if no `open` has failed behind `mysql_init`. -/
theorem handles_closed_iff {calls : List Call} {p : Pool}
    (run : Runs (Pool.Step backend) .new calls p) :
    (∀ C, p.closeAll.lib.closes C ≤ 1) ∧
    ((∀ C < p.closeAll.lib.made, p.closeAll.lib.closes C = 1) ↔
      ∀ pre call post, calls = pre ++ call :: post →
        ¬ Loses backend (pre.foldl (Pool.next backend) .new) call) := by
  have sound := run_sound run
  have closed : Sound backend p.closeAll := @Sound.step _ _ _ .closeAll sound ⟨trivial, rfl⟩
  obtain ⟨keys, apart, held, rest, fresh⟩ := closed.books
  have empty : p.closeAll.ids = [] := by
    have db := (@deletes_books { p with db := p.db.closeAll.1 }
      ⟨sound.books.keys, sound.books.apart, sound.books.held, sound.books.rest,
        sound.books.fresh⟩ p.db.closeAll.2).2.1
    rw [Pool.ids, Pool.closeAll, db]
    rfl
  have stray : (∃ C, Stray p.closeAll C) ↔ ∃ pre call post, calls = pre ++ call :: post ∧
      Loses backend (pre.foldl (Pool.next backend) .new) call :=
    (exists_congr fun C => stray_closeAll sound C).trans (stray_run run)
  constructor
  · intro C
    by_cases made : C < p.closeAll.lib.made
    · rcases rest C made with ⟨it, member, has⟩ | once
      · exact (held it member C has).2.le.trans (Nat.zero_le 1)
      · exact once.le
    · rw [Library.closes_callsOn, fresh C (Nat.le_of_not_lt made)]
      exact Nat.zero_le 1
  · constructor
    · rintro all pre call post whole lost
      obtain ⟨C, it, member, has, _⟩ := stray.mpr ⟨pre, call, post, whole, lost⟩
      obtain ⟨made, unclosed⟩ := held it member C has
      rw [all C made] at unclosed
      cases unclosed
    · intro clean C made
      rcases rest C made with ⟨it, member, has⟩ | once
      · obtain ⟨pre, call, post, whole, lost⟩ := stray.mp
          ⟨C, it, member, has, by rw [empty]; exact List.not_mem_nil⟩
        exact absurd lost (clean pre call post whole)
      · exact once

theorem handles_closed_lost :
    ¬ ∀ C < (examplePool.open .mysql 5
        { init := true, connect := true, select := false }).2.closeAll.lib.made,
      (examplePool.open .mysql 5
        { init := true, connect := true, select := false }).2.closeAll.lib.closes C = 1 := by
  have last : Pool.Step .mysql examplePool (.openInstance 5
      { init := true, connect := true, select := false }) (examplePool.open .mysql 5
        { init := true, connect := true, select := false }).2 := ⟨trivial, rfl⟩
  apply mt (handles_closed_iff (examplePool_run.snoc last)).2.mp
  intro clean
  apply clean [.setConnectionString "mysql://joe:pw@db/shop".toList] _ [] rfl
  exact ⟨5, _, rfl, by decide, rfl, ⟨_, rfl⟩, rfl, rfl⟩

end Solusek.Handlers
