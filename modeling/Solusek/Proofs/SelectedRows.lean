import Solusek.Model.Results

/-!
# One selected row and a list of one

`selectOne` sends what `select` sends with limit `'1'`, and on pqxx its handle holds what that
of `select` holds. MySQL's `queryOne` also makes a text of the first column, which may be NULL.
-/

namespace Solusek.Results

open Transaction

/-- The rows of an answer: none where the statement is rejected or has no result set. -/
def Outcome.rows : Outcome → List (List (Option Str))
  | .rejected _ => []
  | .accepted result _ => result.getD []

namespace CTransaction

variable (backend : Backend) (esc : Str → Str)

/-- `selectOne` sends the text of `select` with limit `'1'`, both return a handle, and both
handles hold the rows of the answer. -/
def Alike (tableName : Str) (find : List Str) (vars : StdMap) (sort : Str)
    (outcome : Outcome) : Prop :=
  selectOneStatement esc tableName find vars sort =
      selectStatement esc tableName find vars sort "1".toList ∧
    ∃ one all : CDatabaseHandle,
      selectOne backend outcome = .returned (.handle one) ∧
      select backend outcome = .returned (.handle all) ∧
      one.getData = all.getData ∧ all.getData = outcome.rows.map rowText

/-! ### The two texts -/

variable {backend : Backend} {esc : Str → Str}

theorem selectOneStatement_eq (tableName : Str) (find : List Str) (vars : StdMap) (sort : Str) :
    selectOneStatement esc tableName find vars sort =
      selectStatement esc tableName find vars sort "1".toList := by
  unfold selectOneStatement selectStatement
  rw [if_pos (by decide), List.append_assoc]
  rfl

/-! ### The two handles -/

theorem select_rows (backend : Backend) (outcome : Outcome) :
    select backend outcome = .returned
      (.handle ⟨(CDatabaseResource.ofPointer .null).setData (outcome.rows.map rowText)⟩) := by
  rcases outcome with what | ⟨_ | rows, insertId⟩ <;> cases backend <;> rfl

/-- Whether `selectOne` reads the first column of the first row, and may do so. -/
def FirstRead (backend : Backend) (outcome : Outcome) : Prop :=
  backend = .mysql → ∀ row ∈ outcome.rows.head?, row.head? ≠ some none

theorem firstRead_empty {outcome : Outcome} (empty : outcome.rows = []) :
    FirstRead backend outcome := by
  intro _ row member
  rw [empty] at member
  exact nomatch member

theorem selectOne_empty {outcome : Outcome} (empty : outcome.rows = []) :
    ∃ one, selectOne backend outcome = .returned (.handle one) ∧ one.getData = [] := by
  match outcome, empty with
  | .rejected _, _ => cases backend <;> exact ⟨_, rfl, rfl⟩
  | .accepted none _, _ => cases backend <;> exact ⟨_, rfl, rfl⟩
  | .accepted (some []) _, _ => cases backend <;> exact ⟨_, rfl, rfl⟩

/-- `selectOne` throws on a NULL that MySQL has in the first column, and nowhere else. -/
theorem selectOne_rows (outcome : Outcome) (columns : ∀ row ∈ outcome.rows, row ≠ []) :
    (FirstRead backend outcome ∧ ∃ one, selectOne backend outcome = .returned (.handle one) ∧
      one.getData = (outcome.rows.take 1).map rowText) ∨
    (¬ FirstRead backend outcome ∧ selectOne backend outcome = .thrown) := by
  by_cases empty : outcome.rows = []
  · rw [empty]
    exact .inl ⟨firstRead_empty empty, selectOne_empty empty⟩
  · match outcome with
    | .rejected _ => exact absurd rfl empty
    | .accepted none _ => exact absurd rfl empty
    | .accepted (some []) _ => exact absurd rfl empty
    | .accepted (some ([] :: _)) _ => exact absurd rfl (columns [] List.mem_cons_self)
    | .accepted (some ((first :: fields) :: rows)) _ =>
      cases backend with
      | pqxx => exact .inl ⟨(nomatch ·), _, rfl, rfl⟩
      | mysql =>
        cases first with
        | none => exact .inr ⟨fun read => read rfl _ rfl rfl, rfl⟩
        | some id =>
          refine .inl ⟨fun _ row member => ?_, _, rfl, rfl⟩
          rw [← Option.some.inj member]
          exact fun same => nomatch same

/-- The two calls are alike exactly where the answer has one row at most, as the limit asks
for, and MySQL does not give that row with a NULL in its first column. -/
theorem alike_iff (backend : Backend) (esc : Str → Str) (tableName : Str) (find : List Str)
    (vars : StdMap) (sort : Str) (outcome : Outcome)
    (columns : ∀ row ∈ outcome.rows, row ≠ []) :
    Alike backend esc tableName find vars sort outcome ↔
      outcome.rows.length ≤ 1 ∧
        (backend = .mysql → ∀ row ∈ outcome.rows, row.head? ≠ some none) := by
  constructor
  · rintro ⟨_, one, all, returned, selected, same, rows⟩
    rcases @selectOne_rows backend outcome columns with
      ⟨read, other, here, held⟩ | ⟨_, threw⟩
    · rw [here] at returned
      have equal : other = one := by
        injection returned with answer
        injection answer
      have counted : (outcome.rows.take 1).length = outcome.rows.length := by
        rw [← List.length_map rowText, ← held, equal, same, rows, List.length_map]
      rw [List.length_take] at counted
      refine ⟨by omega, fun mysql row member => read mysql row ?_⟩
      match given : outcome.rows, counted, member with
      | [only], _, member => rw [List.mem_singleton.mp member]; rfl
    · rw [threw] at returned
      exact nomatch returned
  · rintro ⟨single, filled⟩
    refine ⟨selectOneStatement_eq tableName find vars sort, ?_⟩
    rcases @selectOne_rows backend outcome columns with
      ⟨_, one, here, held⟩ | ⟨unread, _⟩
    · refine ⟨one, _, here, select_rows backend outcome, ?_, rfl⟩
      rw [held, List.take_of_length_le single]
      rfl
    · refine absurd (fun mysql row member => ?_) unread
      exact filled mysql row (List.mem_of_mem_head? member)

/-- PostgreSQL gives a row with a NULL in front. -/
theorem alike_pqxx : Alike .pqxx id "user".toList ["mail".toList, "name".toList] .empty []
    (.accepted (some [[none, some "ann".toList]]) 0) :=
  (alike_iff .pqxx id _ _ _ _ _ (by decide)).mpr ⟨by decide, (nomatch ·)⟩

/-- MySQL gives the same row, and `selectOne` throws. -/
theorem selectOne_null : ¬ ∀ (backend : Backend) (esc : Str → Str) (tableName : Str)
    (find : List Str) (vars : StdMap) (sort : Str) (outcome : Outcome),
    (∀ row ∈ outcome.rows, row ≠ []) → outcome.rows.length ≤ 1 →
      Alike backend esc tableName find vars sort outcome := by
  intro claim
  obtain ⟨_, one, all, returned, _⟩ := claim .mysql id "user".toList
    ["mail".toList, "name".toList] .empty []
    (.accepted (some [[none, some "ann".toList]]) 0) (by decide) (by decide)
  exact nomatch returned

end CTransaction

end Solusek.Results
