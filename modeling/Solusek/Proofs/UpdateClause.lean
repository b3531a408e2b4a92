import Solusek.Proofs.Statements

/-!
# The condition of an update

`update` writes its `WHERE` clause like `select` does, but without `esc`. The clauses agree
exactly on the values that `esc` leaves as they are, and then the statement is read as it is
meant unless the names, which are pasted in as they are, keep the lexer from it.
-/

namespace Solusek.Transaction

open Literals Dialect Texts

variable {τ σ : Type*}

/-- The same columns with empty values. -/
def StdMap.blank (vars : StdMap) : StdMap :=
  ⟨vars.entries.map fun it => (it.1, []), by
    rw [List.pairwise_map]
    exact vars.sorted⟩

def updatePieces (tableName : Str) (find vars : StdMap) : List (Str × Str) :=
  assignmentPieces ("UPDATE ".toList ++ cstr tableName ++ " SET ".toList) ",".toList vars ++
    assignmentPieces " WHERE ".toList " AND ".toList find

/-- `update` has the clause of `select`, and its values are literals: the skeleton is that of
the statement with all values left empty. -/
structure Faithful (D : Dialect Char τ σ) (esc : Str → Str) (tableName : Str)
    (find vars : StdMap) : Prop where
  clause : updateFind find = selectVars esc find
  read : D.lex (updateStatement esc tableName find vars) =
    D.tokens D.start (updatePieces tableName find vars) []
  shape : skeleton (D.lex (updateStatement esc tableName find vars)) =
    D.tokens D.start (updatePieces tableName (StdMap.blank find) (StdMap.blank vars)) []

/-- No name has a quote, and the names leave the lexer where a quote opens a literal. -/
structure Quotable (D : Dialect Char τ σ) (tableName : Str) (find vars : StdMap) : Prop where
  table : '\'' ∉ tableName
  search : ∀ it ∈ find.entries, '\'' ∉ it.1
  change : ∀ it ∈ vars.entries, '\'' ∉ it.1
  readable : Readable D (updatePieces tableName find vars)

/-- The values of `find` that `esc` leaves as they are. -/
def Unescaped (esc : Str → Str) (find : StdMap) : Prop := ∀ it ∈ find.entries, esc it.2 = it.2

/-! ### Two encodings of one list -/

theorem flatMap_grows {esc : Str → Str} (grows : ∀ v, v.length ≤ (esc v).length) (sep : Str)
    (l : List (Str × Str)) :
    (l.flatMap fun it => sep ++ (it.1 ++ ['='] ++ '\'' :: (it.2 ++ ['\'']))).length ≤
      (l.flatMap fun it => sep ++ (it.1 ++ ['='] ++ '\'' :: (esc it.2 ++ ['\'']))).length := by
  induction l with
  | nil => exact Nat.le_refl _
  | cons it l ih =>
    have here := grows it.2
    simp only [List.flatMap_cons, List.length_append, List.length_cons] at ih ⊢
    omega

/-- A value and the text behind it can be told from their encodings, since neither shrinks. -/
theorem append_eq_of_grows {v e rest rest' : Str} (value : v.length ≤ e.length)
    (behind : rest.length ≤ rest'.length)
    (same : v ++ '\'' :: rest = e ++ '\'' :: rest') : v = e ∧ rest = rest' := by
  have lengths := congrArg List.length same
  simp only [List.length_append, List.length_cons] at lengths
  obtain ⟨values, others⟩ := List.append_inj same (by omega)
  exact ⟨values, List.cons_injective others⟩

theorem flatMap_eq_iff {esc : Str → Str} (grows : ∀ v, v.length ≤ (esc v).length) (sep : Str)
    (l : List (Str × Str)) :
    (l.flatMap fun it => sep ++ (it.1 ++ ['='] ++ '\'' :: (it.2 ++ ['\'']))) =
      (l.flatMap fun it => sep ++ (it.1 ++ ['='] ++ '\'' :: (esc it.2 ++ ['\'']))) ↔
    ∀ it ∈ l, esc it.2 = it.2 := by
  induction l with
  | nil => simp
  | cons it l ih =>
    constructor
    · intro same
      simp only [List.flatMap_cons, List.append_assoc, List.append_cancel_left_eq,
        List.cons_append, List.nil_append, List.cons.injEq, true_and] at same
      obtain ⟨value, rest⟩ := append_eq_of_grows (grows it.2) (by
        simpa using flatMap_grows grows sep l) same
      intro other member
      rcases List.mem_cons.mp member with rfl | member
      · exact value.symm
      · exact ih.mp (by simpa using rest) other member
    · intro unescaped
      have later := ih.mpr fun other member => unescaped other (List.mem_cons_of_mem _ member)
      rw [List.flatMap_cons, List.flatMap_cons, later, unescaped it List.mem_cons_self]

theorem assignments_eq_iff {esc : Str → Str} (grows : ∀ v, v.length ≤ (esc v).length) (sep : Str)
    (vars : StdMap) : assignments sep id vars = assignments sep esc vars ↔
      ∀ it ∈ vars.entries, esc it.2 = it.2 := by
  rw [assignments_eq, assignments_eq]
  cases vars.entries with
  | nil => simp
  | cons it l =>
    -- A separator before the first entry as well makes the list uniform.
    have uniform := flatMap_eq_iff grows sep (it :: l)
    rw [← uniform, List.map_cons, List.map_cons, intercalate_cons, intercalate_cons,
      List.flatMap_cons, List.flatMap_cons]
    simp [List.flatMap_map]

/-! ### The whole statement -/

theorem update_text {D : Dialect Char τ σ} (quoted : D.quote = '\'') {esc : Str → Str}
    {tableName : Str} {find vars : StdMap} (searched : find.entries ≠ [])
    (changed : vars.entries ≠ []) (same : updateFind find = selectVars esc find) :
    updateStatement esc tableName find vars =
      D.render esc (updatePieces tableName find vars) [] := by
  unfold updatePieces
  rw [render_append, render_assignments quoted esc _ _ searched,
    render_assignments quoted esc _ _ changed]
  unfold updateStatement
  rw [same]
  simp [updateVars, selectVars]

theorem update_lex {D : Dialect Char τ σ} (quoted : D.quote = '\'') {esc : Str → Str}
    (encodes : D.Encodes esc) {tableName : Str} {find vars : StdMap}
    (quotable : Quotable D tableName find vars) (searched : find.entries ≠ [])
    (changed : vars.entries ≠ []) (same : updateFind find = selectVars esc find) :
    D.lex (updateStatement esc tableName find vars) =
      D.tokens D.start (updatePieces tableName find vars) [] := by
  obtain ⟨table, searchNames, changeNames, readable⟩ := quotable
  rw [update_text quoted searched changed same]
  refine lex_render encodes ?_ ?_ ?_ readable
  · rw [quoted]
    intro item member
    rcases List.mem_append.mp member with set | condition
    · refine assignmentPieces_clean (by decide) ?_ (by decide) changeNames item set
      simp only [List.mem_append, not_or]
      exact ⟨⟨by decide, quote_not_mem_cstr table⟩, by decide⟩
    · exact assignmentPieces_clean (by decide) (by decide) (by decide) searchNames item condition
  · intro item member
    obtain ⟨it, entries, start⟩ := List.exists_cons_of_ne_nil changed
    have later : item ∈ (assignmentPieces ("UPDATE ".toList ++ cstr tableName ++ " SET ".toList)
        ",".toList vars).tail ++ assignmentPieces " WHERE ".toList " AND ".toList find := by
      simpa [updatePieces, assignmentPieces, start, pieces] using member
    rcases List.mem_append.mp later with set | condition
    · exact pieces_apart (by decide) _ item set
    · obtain ⟨it, entries, start⟩ := List.exists_cons_of_ne_nil searched
      have cases' : item = (" WHERE ".toList ++ (it.1 ++ ['=']), it.2) ∨
          item ∈ (assignmentPieces " WHERE ".toList " AND ".toList find).tail := by
        simpa [assignmentPieces, start, pieces] using condition
      rcases cases' with rfl | tail
      · exact List.append_ne_nil_of_left_ne_nil (by decide) _
      · exact pieces_apart (by decide) _ item tail
  · exact List.not_mem_nil

theorem assignmentPieces_of_blank (pre sep : Str) (vars : StdMap) :
    (assignmentPieces pre sep vars).map (fun item => (item.1, ([] : Str))) =
      assignmentPieces pre sep (StdMap.blank vars) := by
  unfold assignmentPieces
  rw [pieces_blank]
  simp [StdMap.blank, Function.comp_def]

/-- `update` is faithful where `esc` leaves the values of `find` as they are and the names are
without quotes and comments; and only such values are searched for with the clause that `select`
writes, as `esc` shortens no text. -/
theorem update_clause_iff {D : Dialect Char τ σ} (quoted : D.quote = '\'') {esc : Str → Str}
    (encodes : D.Encodes esc) {tableName : Str} {find vars : StdMap} (searched : find.entries ≠ [])
    (changed : vars.entries ≠ []) :
    (Quotable D tableName find vars → Unescaped esc find → Faithful D esc tableName find vars) ∧
    ((∀ v, v.length ≤ (esc v).length) →
      (updateFind find = selectVars esc find ↔ Unescaped esc find) ∧
      (Faithful D esc tableName find vars → Unescaped esc find)) := by
  constructor
  · intro quotable unescaped
    have same : updateFind find = selectVars esc find := by
      refine (assignments_eq _ _ _).trans (.trans ?_ (assignments_eq _ _ _).symm)
      refine congrArg _ (List.map_congr_left fun it member => ?_)
      rw [unescaped it member]
      rfl
    have lexed := update_lex quoted encodes quotable searched changed same
    refine ⟨same, lexed, ?_⟩
    rw [lexed, D.skeleton_tokens]
    simp only [updatePieces, List.map_append, assignmentPieces_of_blank]
  · intro grows
    have clause : updateFind find = selectVars esc find ↔ Unescaped esc find :=
      assignments_eq_iff grows _ find
    exact ⟨clause, fun faithful => clause.mp faithful.clause⟩

def ordinary : StdMap :=
  ⟨[("id".toList, "7".toList), ("name".toList, "bob -- ".toList)], by decide⟩

/-- Ordinary values to search for, and ones to set that try to end their literals. -/
theorem update_clause_iff_plain :
    updateFind ordinary = selectVars (double '\'') ordinary ∧
      Faithful lineComments (double '\'') "users".toList ordinary hostile := by
  obtain ⟨faithful, clause⟩ := @update_clause_iff _ _ lineComments rfl _ lineComments_encodes
    "users".toList ordinary hostile (List.cons_ne_nil _ _) (List.cons_ne_nil _ _)
  have unescaped : Unescaped (double '\'') ordinary := by simp [Unescaped, ordinary, double]
  refine ⟨((clause (length_double '\'')).1).mpr unescaped, faithful ⟨?_, ?_, ?_, ?_⟩ unescaped⟩
  · decide
  · simp [ordinary]
  · simp [hostile]
  · decide

/-- A value that ends its literal: the clause is not that of `select`, and the skeleton is not
that of an ordinary value. -/
theorem update_clause_injected :
    ¬ (∀ find vars : StdMap, find.entries ≠ [] → vars.entries ≠ [] →
      Quotable lineComments "users".toList find vars →
        Faithful lineComments (double '\'') "users".toList find vars) := by
  intro claim
  have faithful := claim ⟨[("name".toList, "x' OR '1'='1".toList)], by decide⟩
    ⟨[("age".toList, "7".toList)], by decide⟩ (List.cons_ne_nil _ _) (List.cons_ne_nil _ _)
    ⟨by decide, by simp, by simp, by decide⟩
  exact absurd faithful.shape (by decide)

end Solusek.Transaction
