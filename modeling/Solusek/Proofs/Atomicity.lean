import Solusek.Model.Transaction

/-!
# Transactions that are never committed

A `pqxx::work` is a transaction from `begin()` to `dispose()`. The MySQL handler never sends
`START TRANSACTION`, so there every statement is permanent at once.
-/

namespace Solusek.Transaction

open CTransaction

variable {DB : Type*}

namespace CTransaction

def Op.text (backend : Backend) (esc : Str → Str) : Op → Str
  | .exec s => s
  | .insert tableName vars =>
    CDatabaseTransaction.insertText backend (insertStatement esc tableName vars) "id".toList
  | .update tableName find vars => updateStatement esc tableName find vars
  | .selectOne tableName find vars sort => selectOneStatement esc tableName find vars sort
  | .selectCustom query => query
  | .select tableName find vars sort limit => selectStatement esc tableName find vars sort limit

def runAll (backend : Backend) (server : Server DB) (ops : List Op) (s : Session DB) : Session DB :=
  ops.foldl (fun s op => op.run backend server s) s

end CTransaction

/-- A statement that neither starts nor ends a transaction. -/
def Stmt.Steady : Stmt DB → Prop
  | .data _ => True
  | .control effect =>
    ∀ s, (effect s).committed = s.committed ∧ ((effect s).work = .idle ↔ s.work = .idle)

/-- No operation sends a transaction statement of its own, such as `commit;`. -/
def Plain (backend : Backend) (server : Server DB) (ops : List Op) : Prop :=
  ∀ op ∈ ops, (server.parse (op.text backend server.esc)).Steady

/-- The data after the statements `texts`, each of them permanent at once. -/
def replay (server : Server DB) (texts : List Str) (db : DB) : DB :=
  texts.foldl
    (fun db text =>
      match server.parse text with
      | .data effect => (effect db).getD db
      | .control _ => db)
    db

theorem op_run_eq (backend : Backend) (server : Server DB) (op : Op) (s : Session DB) :
    op.run backend server s = s.run backend (server.parse (op.text backend server.esc)) := by
  cases op <;> rfl

/-! ### Inside a transaction -/

theorem run_inside (backend : Backend) {s : Session DB} (inside : s.work ≠ .idle) {st : Stmt DB}
    (steady : st.Steady) :
    (s.run backend st).committed = s.committed ∧ (s.run backend st).work ≠ .idle := by
  cases st with
  | control effect =>
    obtain ⟨kept, same⟩ := steady s
    exact ⟨kept, fun idle => inside (same.mp idle)⟩
  | data effect =>
    simp only [Session.run]
    unfold Session.runData
    split
    · rename_i idle
      exact absurd idle inside
    · split
      · exact ⟨rfl, by simp⟩
      · exact ⟨rfl, inside⟩
      · exact ⟨rfl, by simp⟩
    · exact ⟨rfl, inside⟩

theorem runAll_inside {backend : Backend} {server : Server DB} {ops : List Op}
    (plain : Plain backend server ops) {s : Session DB} (inside : s.work ≠ .idle) :
    (runAll backend server ops s).committed = s.committed := by
  induction ops generalizing s with
  | nil => rfl
  | cons op ops ih =>
    obtain ⟨kept, still⟩ := run_inside backend inside (plain op List.mem_cons_self)
    have rest := ih (fun other member => plain other (List.mem_cons_of_mem _ member)) still
    unfold runAll at rest ⊢
    rw [List.foldl_cons, op_run_eq, rest, kept]

/-! ### Outside a transaction -/

theorem run_outside (backend : Backend) {server : Server DB} {text : Str}
    (steady : (server.parse text).Steady) (db : DB) :
    Session.run backend ⟨db, .idle⟩ (server.parse text) = ⟨replay server [text] db, .idle⟩ := by
  simp only [replay, List.foldl_cons, List.foldl_nil]
  cases parsed : server.parse text with
  | data effect => rfl
  | control effect =>
    rw [parsed] at steady
    obtain ⟨kept, same⟩ := steady ⟨db, .idle⟩
    have idle := same.mpr rfl
    simp only [Session.run]
    cases after : effect ⟨db, .idle⟩ with
    | mk committed work =>
      rw [after] at kept idle
      subst kept idle
      rfl

theorem runAll_outside {backend : Backend} {server : Server DB} {ops : List Op}
    (plain : Plain backend server ops) (db : DB) :
    runAll backend server ops ⟨db, .idle⟩ =
      ⟨replay server (ops.map (Op.text backend server.esc)) db, .idle⟩ := by
  induction ops generalizing db with
  | nil => rfl
  | cons op ops ih =>
    have here := run_outside backend (plain op List.mem_cons_self) db
    have rest := ih (fun other member => plain other (List.mem_cons_of_mem _ member))
      (replay server [op.text backend server.esc] db)
    unfold runAll at rest ⊢
    rw [List.foldl_cons, op_run_eq, here, rest, List.map_cons]
    rfl

/-- A transaction that is disposed of without a commit leaves the data as it was exactly when
the backend is PQXX or its statements together change nothing. -/
theorem uncommitted_iff {backend : Backend} {server : Server DB} {ops : List Op}
    (plain : Plain backend server ops) (db : DB) :
    (dispose backend (runAll backend server ops (begin backend ⟨db, .idle⟩))).committed = db ↔
      backend = .pqxx ∨ replay server (ops.map (Op.text backend server.esc)) db = db := by
  cases backend with
  | mysql =>
    have after := runAll_outside plain db
    simp [dispose, CDatabaseTransaction.destroy, begin, after]
  | pqxx =>
    have after : (runAll .pqxx server ops ⟨db, .active db⟩).committed = db :=
      runAll_inside plain (by simp)
    simp [dispose, CDatabaseTransaction.destroy, begin, Session.rollback,
      Session.startTransaction, after]

/-- An inserted row on a server that keeps the texts it was sent. -/
theorem uncommitted_iff_insert :
    (dispose .pqxx (runAll .pqxx ⟨fun text => .data fun db => some (text :: db), id⟩
      [.insert "users".toList ⟨[("name".toList, "bob".toList)], by simp⟩]
      (begin .pqxx ⟨([] : List Str), .idle⟩))).committed = [] := by
  apply (uncommitted_iff _ []).mpr (Or.inl rfl)
  intro op _
  trivial

/-- The same row stays on a MySQL server. -/
theorem uncommitted_kept :
    ¬ ∀ (backend : Backend) (server : Server (List Str)) (ops : List Op) (db : List Str),
      Plain backend server ops →
        (dispose backend (runAll backend server ops (begin backend ⟨db, .idle⟩))).committed =
          db := by
  intro claim
  have kept := claim .mysql ⟨fun text => .data fun db => some (text :: db), id⟩
    [.insert "users".toList ⟨[("name".toList, "bob".toList)], by simp⟩] []
    (fun _ _ => trivial)
  exact List.cons_ne_nil _ _ kept

end Solusek.Transaction
