import Solusek.Model.Results

/-!
# What the caller learns of a statement

`update` answers with a flag, the other calls with a handle. The answer is true to what the
client library did on most paths; the others are those where a handler drops the outcome
(`select`, `selectCustom`, MySQL's `queryOne`), takes "no result set" for a failure, or
reads a field that is not there.
-/

namespace Solusek.Results

open Transaction
open Transaction.CTransaction (Op)

/-- The ID of the row an accepted `INSERT` made, where the client library tells it. -/
def Outcome.newId (backend : Backend) : Outcome → Option Str
  | .rejected _ => none
  | .accepted result insertId =>
    match backend, result with
    | .mysql, _ => some (printNat insertId)
    | .pqxx, some ((some id :: _) :: _) => some id
    | .pqxx, _ => none

namespace CTransaction

variable (backend : Backend) (esc : Str → Str) (nullWhat : Str)

/-- The call returns a handle whose `isError()` tells whether the statement was rejected. -/
def HandleTells (outcome : Outcome) (answer : Ended Answer) : Prop :=
  ∃ h : CDatabaseHandle, answer = .returned (.handle h) ∧ h.isError = !outcome.isAccepted

/-- The caller learns the truth. -/
def Truthful (op : Op) (outcome : Outcome) : Prop :=
  let answer := Op.answer backend esc nullWhat op outcome
  match op with
  | .exec _ => ∃ r, answer = .returned (.code r) ∧ (r = 0 ↔ outcome.isAccepted)
  | .update _ _ _ => answer = .returned (.flag outcome.isAccepted)
  | .insert _ _ => HandleTells outcome answer ∧
      (outcome.isAccepted → ∃ h : CDatabaseHandle,
        answer = .returned (.handle h) ∧ outcome.newId backend = some h.getID)
  | _ => HandleTells outcome answer

/-- The outcomes that the handler of `backend` passes on. -/
def Passed : Op → Outcome → Prop
  | .exec _, _ => True
  | .insert _ _, .rejected what => backend = .pqxx → what ≠ []
  | .insert _ _, .accepted result _ =>
    match backend with
    | .mysql => result ≠ none
    | .pqxx => ∃ id row rows, result = some ((some id :: row) :: rows)
  | .update _ _ _, .rejected _ => True
  | .update _ _ _, .accepted result _ => backend = .mysql → result ≠ none
  | .selectOne _ _ _ _, .rejected what => backend = .pqxx ∧ what ≠ []
  | .selectOne _ _ _ _, .accepted result _ =>
    ∀ row rows, result = some (row :: rows) →
      row ≠ [] ∧ (backend = .mysql → row.head? ≠ some none)
  | .selectCustom _, outcome => outcome.isAccepted
  | .select _ _ _ _ _, outcome => outcome.isAccepted

/-! ### Each call -/

@[simp] theorem handleTells_returned {outcome : Outcome} {h : CDatabaseHandle} :
    HandleTells outcome (.returned (.handle h)) ↔ h.isError = !outcome.isAccepted := by
  simp [HandleTells]

@[simp] theorem handleTells_thrown {outcome : Outcome} : ¬ HandleTells outcome .thrown := by
  simp [HandleTells]

@[simp] theorem handleTells_undefined {outcome : Outcome} :
    ¬ HandleTells outcome .undefined := by
  simp [HandleTells]

@[simp] theorem isError_ofError (error : Str) :
    (CDatabaseHandle.mk (.ofError error)).isError = true ↔ error ≠ [] := by
  simp [CDatabaseHandle.isError, CDatabaseResource.isError, CDatabaseResource.ofError,
    List.length_pos_iff]

@[simp] theorem isError_ofPointer (p : Pointer) (id : Str) :
    (CDatabaseHandle.mk (.ofPointer p id)).isError = false := rfl

@[simp] theorem isError_setData (p : Pointer) (id : Str) (data : List (List Str)) :
    (CDatabaseHandle.mk ((CDatabaseResource.ofPointer p id).setData data)).isError = false := rfl

@[simp] theorem getID_ofPointer (p : Pointer) (id : Str) :
    (CDatabaseHandle.mk (.ofPointer p id)).getID = id := rfl

variable {backend : Backend} {esc : Str → Str} {nullWhat : Str}

theorem insertStatement_ne_nil (tableName : Str) (vars : StdMap) :
    insertStatement esc tableName vars ≠ [] := by
  unfold insertStatement
  exact List.append_ne_nil_of_right_ne_nil _ (List.cons_ne_nil ')' [])

theorem insert_rejected_truthful (tableName : Str) (vars : StdMap) (what : Str) :
    Truthful backend esc nullWhat (.insert tableName vars) (.rejected what) ↔
      (backend = .pqxx → what ≠ []) := by
  have text := @insertStatement_ne_nil esc tableName vars
  cases backend <;>
    simp [Truthful, Op.answer, insert, CDatabaseTransaction.insert, Mysql.insert, Pqxx.insert,
      Ended.map, Outcome.isAccepted, text]

/-- pqxx tells the new ID in the first field of the first row, and nowhere else. -/
theorem newId_pqxx {result : Option (List (List (Option Str)))} {insertId : Nat} {id : Str}
    (told : Outcome.newId .pqxx (.accepted result insertId) = some id) :
    ∃ row rows, result = some ((some id :: row) :: rows) := by
  match result, told with
  | some ((some _ :: row) :: rows), told =>
    rw [Option.some.inj told]
    exact ⟨row, rows, rfl⟩

theorem insert_truthful (tableName : Str) (vars : StdMap) (outcome : Outcome) :
    Truthful backend esc nullWhat (.insert tableName vars) outcome ↔
      Passed backend (.insert tableName vars) outcome := by
  cases outcome with
  | rejected what => exact insert_rejected_truthful tableName vars what
  | accepted result insertId =>
    cases backend with
    | mysql =>
      cases result <;>
        simp [Truthful, Passed, Op.answer, insert, CDatabaseTransaction.insert, Mysql.insert,
          Ended.map, Outcome.isAccepted, Outcome.newId]
    | pqxx =>
      constructor
      · intro truthful
        obtain ⟨h, _, told⟩ := truthful.2 rfl
        exact ⟨h.getID, newId_pqxx told⟩
      · rintro ⟨id, row, rows, rfl⟩
        simp [Truthful, Op.answer, insert, CDatabaseTransaction.insert, Pqxx.insert, Ended.map,
          Outcome.isAccepted, Outcome.newId]

theorem update_truthful (tableName : Str) (find vars : StdMap) (outcome : Outcome) :
    Truthful backend esc nullWhat (.update tableName find vars) outcome ↔
      Passed backend (.update tableName find vars) outcome := by
  rcases outcome with what | ⟨_ | rows, insertId⟩ <;> cases backend <;>
    simp [Truthful, Passed, Op.answer, update, CDatabaseTransaction.query, Mysql.query,
      Pqxx.query, Ended.map, Outcome.isAccepted]

theorem selectOne_truthful (tableName : Str) (find : List Str) (vars : StdMap) (sort : Str)
    (outcome : Outcome) :
    Truthful backend esc nullWhat (.selectOne tableName find vars sort) outcome ↔
      Passed backend (.selectOne tableName find vars sort) outcome := by
  rcases outcome with what | ⟨_ | _ | ⟨_ | ⟨_ | id, row⟩, rows⟩, insertId⟩ <;> cases backend <;>
    simp [Truthful, Passed, Op.answer, selectOne, CDatabaseTransaction.queryOne, Mysql.queryOne,
      Pqxx.queryOne, Ended.map, Outcome.isAccepted, rowText]

/-- `select` and `selectCustom` drop what `query` returns, so their handle is never an error. -/
theorem query_tells (outcome : Outcome) :
    HandleTells outcome (selectCustom backend outcome) ↔ outcome.isAccepted := by
  rcases outcome with what | ⟨_ | rows, insertId⟩ <;> cases backend <;>
    simp [selectCustom, CDatabaseTransaction.query, Mysql.query, Pqxx.query, Ended.map,
      Outcome.isAccepted]

/-! ### All calls -/

/-- The caller learns the truth exactly on the outcomes that the handler passes on. -/
theorem truthful_iff (backend : Backend) (esc : Str → Str) (nullWhat : Str) (op : Op)
    (outcome : Outcome) :
    Truthful backend esc nullWhat op outcome ↔ Passed backend op outcome := by
  cases op with
  | exec s =>
    cases outcome <;> cases backend <;>
      simp [Truthful, Passed, Op.answer, exec, CDatabaseTransaction.exec, Mysql.exec, Pqxx.exec,
        Ended.map, Outcome.isAccepted]
  | insert tableName vars => exact insert_truthful tableName vars outcome
  | update tableName find vars => exact update_truthful tableName find vars outcome
  | selectOne tableName find vars sort => exact selectOne_truthful tableName find vars sort outcome
  | selectCustom s => exact query_tells outcome
  | select tableName find vars sort limit => exact query_tells outcome

/-- MySQL gives an accepted `UPDATE` no result set, and `update` says that it failed. -/
theorem update_denied :
    ¬ ∀ (backend : Backend) (esc : Str → Str) (nullWhat : Str) (op : Op) (outcome : Outcome),
      Truthful backend esc nullWhat op outcome := by
  intro claim
  have said : Ended.returned (Answer.flag false) = .returned (.flag true) :=
    claim .mysql id [] (.update "t".toList ⟨[], .nil⟩ ⟨[], .nil⟩) (.accepted none 0)
  cases said

end CTransaction

end Solusek.Results
