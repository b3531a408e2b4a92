import Solusek.Proofs.StatementTexts

/-!
# Statement texts

What the texts of `CTransaction` lex to. In `insert`, `select` and `selectOne` every value of
the map becomes one literal behind its own column, unless the names, which are pasted in as they
are, keep the lexer from reading literals; `update` pastes the values of `find` in as they are.
-/

namespace Solusek.Transaction

open Literals Dialect Texts

variable {τ σ : Type*}

/-! ### Statements with literals -/

/-- The columns of a map: names that are not empty and hold no quote. -/
def Named (vars : StdMap) : Prop := ∀ it ∈ vars.entries, it.1 ≠ [] ∧ '\'' ∉ it.1

/-- The statement of `vars` lexes as intended, its literals are the values of `vars`, and its
skeleton is that of every other map with the same columns. -/
def Bound (D : Dialect Char τ σ) (statement : StdMap → Str) (intended : StdMap → List (Token Char τ))
    (vars : StdMap) : Prop :=
  D.lex (statement vars) = intended vars ∧
  literals (D.lex (statement vars)) = vars.entries.map Prod.snd ∧
  ∀ vars' : StdMap, vars'.entries.map Prod.fst = vars.entries.map Prod.fst →
    skeleton (D.lex (statement vars')) = skeleton (D.lex (statement vars))

theorem named_of_columns {vars vars' : StdMap} (named : Named vars)
    (same : vars'.entries.map Prod.fst = vars.entries.map Prod.fst) : Named vars' := by
  intro it member
  have column : it.1 ∈ vars.entries.map Prod.fst := by
    rw [← same]
    exact List.mem_map_of_mem member
  obtain ⟨old, inside, equal⟩ := List.mem_map.mp column
  exact equal ▸ named old inside

/-- The pieces of a statement give its tokens, and do not depend on the values but for these. -/
theorem bound_of_lex {D : Dialect Char τ σ} {statement : StdMap → Str}
    {intended : StdMap → List (Token Char τ)} {items : StdMap → List (Str × Str)}
    (lexed : ∀ vars, Named vars → Readable D (items vars) → D.lex (statement vars) = intended vars)
    (values : ∀ vars, literals (intended vars) = vars.entries.map Prod.snd)
    (texts : ∀ vars vars' : StdMap, vars'.entries.map Prod.fst = vars.entries.map Prod.fst →
      (items vars').map Prod.fst = (items vars).map Prod.fst)
    (shape : ∀ vars vars' : StdMap, vars'.entries.map Prod.fst = vars.entries.map Prod.fst →
      skeleton (intended vars') = skeleton (intended vars))
    {vars : StdMap} (named : Named vars) (readable : Readable D (items vars)) :
    Bound D statement intended vars := by
  refine ⟨lexed vars named readable, ?_, ?_⟩
  · rw [lexed vars named readable, values]
  · intro vars' same
    have readable' : Readable D (items vars') := by
      rw [Readable, texts vars vars' same]
      exact readable
    rw [lexed vars named readable, lexed vars' (named_of_columns named same) readable',
      shape vars vars' same]

theorem quote_not_mem_cstr {s : Str} (clean : '\'' ∉ s) : '\'' ∉ cstr s :=
  fun member => clean ((List.takeWhile_sublist _).subset member)

theorem insertHead_clean {tableName : Str} {columns : List Str} (table : '\'' ∉ tableName)
    (clean : ∀ c ∈ columns, '\'' ∉ c) : '\'' ∉ insertHead tableName columns := by
  have names : '\'' ∉ ",".toList.intercalate columns := by
    intro member
    rcases mem_intercalate member with gap | ⟨c, inside, quote⟩
    · exact absurd gap (by decide)
    · exact clean c inside quote
  unfold insertHead
  simp only [List.mem_append, not_or]
  exact ⟨⟨⟨⟨by decide, quote_not_mem_cstr table⟩, by decide⟩, names⟩, by decide⟩

theorem insert_lex {D : Dialect Char τ σ} (quoted : D.quote = '\'') {esc : Str → Str}
    (encodes : D.Encodes esc) {tableName : Str} (table : '\'' ∉ tableName) {vars : StdMap}
    (named : Named vars) (readable : Readable D (insertPieces tableName vars)) :
    D.lex (insertStatement esc tableName vars) = insertTokens D tableName vars := by
  have text : insertStatement esc tableName vars =
      insertHead tableName (vars.entries.map Prod.fst) ++
        ",".toList.intercalate (vars.entries.map fun it => '\'' :: (esc it.2 ++ ['\''])) ++
        ")".toList := by
    unfold insertStatement
    rw [insertLists_eq fun it member => (named it member).1]
    rfl
  have head : '\'' ∉ insertHead tableName (vars.entries.map Prod.fst) := by
    apply insertHead_clean table
    intro c member
    obtain ⟨it, inside, rfl⟩ := List.mem_map.mp member
    exact (named it inside).2
  refine lex_listTokens encodes ?_ ?_ ?_ ?_ ?_ ?_ readable
  · intro bare
    have empty : vars.entries = [] := by
      cases entries : vars.entries with
      | nil => rfl
      | cons it rest => simp [insertPieces, entries, pieces] at bare
    simp [text, empty, List.intercalate_nil]
  · intro filled
    have entries : vars.entries ≠ [] := by
      intro empty
      simp [insertPieces, empty, pieces] at filled
    rw [insertPieces, D.render_pieces esc _ _ (by simpa using entries), text, quoted]
    simp [Function.comp_def]
  · simpa [quoted] using head
  · rw [quoted]
    apply pieces_clean head (by decide)
    intro item member
    obtain ⟨it, _, rfl⟩ := List.mem_map.mp member
    exact List.not_mem_nil
  · exact pieces_apart (by decide) _
  · rw [quoted]
    decide

/-- What follows `FROM` and the table: `post` is the text behind the condition. -/
theorem select_lex {D : Dialect Char τ σ} (quoted : D.quote = '\'') {esc : Str → Str}
    (encodes : D.Encodes esc) {tableName : Str} {find : List Str}
    (head : '\'' ∉ selectHead tableName find) {post : Str} (last : '\'' ∉ post) {vars : StdMap}
    (named : Named vars) (readable : Readable D (selectPieces tableName find vars)) {text : Str}
    (built : text = selectHead tableName find ++
      (if vars.entries = [] then [] else " WHERE ".toList ++ selectVars esc vars) ++ post) :
    D.lex text = selectTokens D tableName find vars post := by
  have blank : selectPieces tableName find vars = [] ↔ vars.entries = [] := by
    cases entries : vars.entries <;> simp [selectPieces, assignmentPieces, entries, pieces]
  refine lex_listTokens encodes ?_ ?_ ?_ ?_ ?_ ?_ readable
  · intro bare
    rw [built, if_pos (blank.mp bare)]
    simp
  · intro filled
    have entries := fun h => filled (blank.mpr h)
    rw [built, if_neg entries, selectPieces, render_assignments quoted esc _ _ entries, selectVars]
    simp
  · simpa [quoted] using ⟨head, last⟩
  · rw [quoted]
    apply assignmentPieces_clean (by decide) _ (by decide) fun it member => (named it member).2
    simpa using head
  · exact pieces_apart (by decide) _
  · simpa [quoted] using last

theorem selectBuilder_eq (esc : Str → Str) (tableName : Str) (find : List Str) (vars : StdMap)
    (sort : Str) : selectBuilder esc tableName find vars sort =
      selectHead tableName find ++
        (if vars.entries = [] then [] else " WHERE ".toList ++ selectVars esc vars) ++
        orderBy sort := by
  unfold selectBuilder orderBy selectHead
  cases vars.entries <;> cases sort <;> simp

theorem selectStatement_eq (esc : Str → Str) (tableName : Str) (find : List Str) (vars : StdMap)
    (sort limit : Str) : selectStatement esc tableName find vars sort limit =
      selectHead tableName find ++
        (if vars.entries = [] then [] else " WHERE ".toList ++ selectVars esc vars) ++
        (orderBy sort ++ limitTo limit) := by
  unfold selectStatement limitTo
  rw [selectBuilder_eq]
  cases limit with
  | nil => simp only [List.length_nil, Nat.lt_irrefl, gt_iff_lt, if_true, if_false, List.append_nil]
  | cons c limit =>
    simp only [List.length_cons, Nat.zero_lt_succ, gt_iff_lt, if_true, List.cons_ne_nil, if_false,
      List.append_assoc]

theorem selectOneStatement_eq (esc : Str → Str) (tableName : Str) (find : List Str)
    (vars : StdMap) (sort : Str) : selectOneStatement esc tableName find vars sort =
      selectHead tableName find ++
        (if vars.entries = [] then [] else " WHERE ".toList ++ selectVars esc vars) ++
        (orderBy sort ++ " LIMIT 1".toList) := by
  unfold selectOneStatement
  rw [selectBuilder_eq]
  simp only [List.append_assoc]

theorem selectHead_clean {tableName : Str} {find : List Str} (table : '\'' ∉ tableName)
    (columns : ∀ c ∈ find, '\'' ∉ c) : '\'' ∉ selectHead tableName find := by
  have names : ∀ (l : List Str) (q : Str), (∀ c ∈ l, '\'' ∉ c) → '\'' ∉ q →
      '\'' ∉ l.foldl (fun q it => separated q ",".toList ++ it) q := by
    intro l
    induction l with
    | nil => exact fun q _ clean => clean
    | cons it l ih =>
      intro q rest clean
      apply ih _ fun c member => rest c (List.mem_cons_of_mem _ member)
      have here := rest it List.mem_cons_self
      show '\'' ∉ (if q.length > 0 then q ++ ",".toList else q) ++ it
      split
      · simp [clean, here]
      · simp [clean, here]
  have list := names find [] columns List.not_mem_nil
  unfold selectHead selectColumns
  simp only [List.mem_append, not_or]
  exact ⟨⟨⟨by decide, list⟩, by decide⟩, quote_not_mem_cstr table⟩

theorem orderBy_clean {sort : Str} (clean : '\'' ∉ sort) : '\'' ∉ orderBy sort := by
  unfold orderBy
  split <;> simp [clean]

theorem limitTo_clean {limit : Str} (clean : '\'' ∉ limit) : '\'' ∉ limitTo limit := by
  unfold limitTo
  split <;> simp [clean]

/-! ### What depends on the columns only -/

theorem assignmentPieces_values (pre sep : Str) (vars : StdMap) :
    (assignmentPieces pre sep vars).map Prod.snd = vars.entries.map Prod.snd := by
  unfold assignmentPieces
  rw [pieces_map_snd]
  simp [Function.comp_def]

theorem assignmentPieces_blank {vars vars' : StdMap}
    (same : vars'.entries.map Prod.fst = vars.entries.map Prod.fst) (pre sep : Str) :
    (assignmentPieces pre sep vars').map (fun item => (item.1, ([] : Str))) =
      (assignmentPieces pre sep vars).map fun item => (item.1, []) := by
  have named : ∀ l : List (Str × Str),
      (l.map fun it => (it.1 ++ ['='], it.2)).map (fun item => (item.1, ([] : Str))) =
        (l.map Prod.fst).map fun c => (c ++ ['='], []) := by
    intro l
    simp [Function.comp_def]
  unfold assignmentPieces
  rw [pieces_blank, pieces_blank, named, named, same]

/-- Pieces that differ in their values only have the same texts. -/
theorem texts_of_blank {items items' : List (Str × Str)}
    (same : items'.map (fun item => (item.1, ([] : Str))) = items.map fun item => (item.1, [])) :
    items'.map Prod.fst = items.map Prod.fst := by
  have texts := congrArg (List.map Prod.fst) same
  rwa [List.map_map, List.map_map] at texts

section

variable {vars vars' : StdMap} (same : vars'.entries.map Prod.fst = vars.entries.map Prod.fst)
include same

theorem insertPieces_blank (tableName : Str) :
    (insertPieces tableName vars').map (fun item => (item.1, ([] : Str))) =
      (insertPieces tableName vars).map fun item => (item.1, []) := by
  have blank : ∀ l : List (Str × Str),
      (l.map fun it => (([] : Str), it.2)).map (fun item => (item.1, ([] : Str))) =
        (l.map Prod.fst).map fun _ => ([], []) := by
    intro l
    simp [Function.comp_def]
  unfold insertPieces
  rw [pieces_blank, pieces_blank, blank, blank, same]

theorem insertTokens_shape (D : Dialect Char τ σ) (tableName : Str) :
    skeleton (insertTokens D tableName vars') = skeleton (insertTokens D tableName vars) := by
  rw [insertTokens, insertTokens, skeleton_listTokens, skeleton_listTokens,
    insertPieces_blank same, same]

theorem selectPieces_blank (tableName : Str) (find : List Str) :
    (selectPieces tableName find vars').map (fun item => (item.1, ([] : Str))) =
      (selectPieces tableName find vars).map fun item => (item.1, []) :=
  assignmentPieces_blank same _ _

theorem selectTokens_shape (D : Dialect Char τ σ) (tableName : Str) (find : List Str)
    (post : Str) : skeleton (selectTokens D tableName find vars' post) =
      skeleton (selectTokens D tableName find vars post) := by
  rw [selectTokens, selectTokens, skeleton_listTokens, skeleton_listTokens,
    selectPieces_blank same]

end

/-- As long as the names leave the lexer where a quote opens a literal, the statements of
`insert`, `select` and `selectOne` lex as intended whatever the values are: every value is one
literal, behind its own column or at its column's place in the list. -/
theorem statements_bound {D : Dialect Char τ σ} (quoted : D.quote = '\'') {esc : Str → Str}
    (encodes : D.Encodes esc) {tableName sort limit : Str} {find : List Str}
    (table : '\'' ∉ tableName) (columns : ∀ c ∈ find, '\'' ∉ c) (sorted : '\'' ∉ sort)
    (limited : '\'' ∉ limit) {vars : StdMap} (named : Named vars) :
    (Readable D (insertPieces tableName vars) →
      Bound D (insertStatement esc tableName) (insertTokens D tableName) vars) ∧
    (Readable D (selectPieces tableName find vars) →
      Bound D (fun vars => selectStatement esc tableName find vars sort limit)
        (fun vars => selectTokens D tableName find vars (orderBy sort ++ limitTo limit)) vars ∧
      Bound D (fun vars => selectOneStatement esc tableName find vars sort)
        (fun vars => selectTokens D tableName find vars (orderBy sort ++ " LIMIT 1".toList))
        vars) := by
  have head := selectHead_clean table columns
  have order := orderBy_clean sorted
  have values (post : Str) (vars : StdMap) :
      literals (selectTokens D tableName find vars post) = vars.entries.map Prod.snd := by
    rw [selectTokens, literals_listTokens, selectPieces, assignmentPieces_values]
  have texts (vars vars' : StdMap)
      (same : vars'.entries.map Prod.fst = vars.entries.map Prod.fst) :=
    texts_of_blank (selectPieces_blank same tableName find)
  refine ⟨fun readable => ?_, fun readable => ⟨?_, ?_⟩⟩
  · refine bound_of_lex ?_ ?_ ?_ ?_ named readable
    · exact fun vars named => insert_lex quoted encodes table named
    · intro vars
      rw [insertTokens, literals_listTokens, insertPieces, pieces_map_snd]
      simp [Function.comp_def]
    · exact fun _ _ same => texts_of_blank (insertPieces_blank same tableName)
    · exact fun _ _ same => insertTokens_shape same D tableName
  · refine bound_of_lex ?_ (values _) texts ?_ named readable
    · intro vars named readable
      apply select_lex quoted encodes head _ named readable
      · exact selectStatement_eq ..
      · exact fun member => (List.mem_append.mp member).elim order (limitTo_clean limited)
    · exact fun _ _ same => selectTokens_shape same D tableName find _
  · refine bound_of_lex ?_ (values _) texts ?_ named readable
    · intro vars named readable
      apply select_lex quoted encodes head _ named readable
      · exact selectOneStatement_eq ..
      · exact fun member => (List.mem_append.mp member).elim order (by decide)
    · exact fun _ _ same => selectTokens_shape same D tableName find _

/-! ### A lexer with comments -/

inductive Mode where
  | code
  | dash
  | comment
  deriving DecidableEq, Repr

/-- Two dashes start a comment, which goes to the end of its line; every other symbol outside the
literals is a token, and quotes are doubled. -/
def lineComments : Dialect Char Char Mode where
  quote := '\''
  start := .code
  step
    | .code, c => if c = '-' then ([], .dash) else ([c], .code)
    | .dash, c => if c = '-' then ([], .comment) else (['-', c], .code)
    | .comment, c => ([], if c = '\n' then .code else .comment)
  flush
    | .dash => ['-']
    | _ => []
  opens
    | .comment => false
    | _ => true
  behind _ := .code
  body := doubledBody '\''

theorem lineComments_encodes : lineComments.Encodes (double '\'') :=
  @encodes_double _ _ _ _ lineComments rfl

/-- Values that try to end their literals, or to go on in a comment. -/
def hostile : StdMap :=
  ⟨[("age".toList, "1' -- ".toList), ("name".toList, "x' OR '1'='1".toList)], by decide⟩

theorem statements_bound_hostile :
    Bound lineComments (insertStatement (double '\'') "users".toList)
      (insertTokens lineComments "users".toList) hostile ∧
    Bound lineComments
      (fun vars => selectStatement (double '\'') "users".toList ["id".toList, "name".toList] vars
        "name".toList "5".toList)
      (fun vars => selectTokens lineComments "users".toList ["id".toList, "name".toList] vars
        (orderBy "name".toList ++ limitTo "5".toList)) hostile ∧
    Bound lineComments
      (fun vars => selectOneStatement (double '\'') "users".toList ["id".toList, "name".toList]
        vars "name".toList)
      (fun vars => selectTokens lineComments "users".toList ["id".toList, "name".toList] vars
        (orderBy "name".toList ++ " LIMIT 1".toList)) hostile := by
  have named : Named hostile := by
    intro it member
    have pairs : it = ("age".toList, "1' -- ".toList) ∨
        it = ("name".toList, "x' OR '1'='1".toList) := by simpa [hostile] using member
    rcases pairs with rfl | rfl <;> decide
  have columns : ∀ c ∈ ["id".toList, "name".toList], '\'' ∉ c := by decide
  obtain ⟨inserted, selected⟩ := statements_bound rfl lineComments_encodes
    (show '\'' ∉ "users".toList by decide) columns (show '\'' ∉ "name".toList by decide)
    (show '\'' ∉ "5".toList by decide) named
  have opened : Readable lineComments (insertPieces "users".toList hostile) := by decide
  have opened' : Readable lineComments
      (selectPieces "users".toList ["id".toList, "name".toList] hostile) := by decide
  exact ⟨inserted opened, selected opened'⟩

/-- A table name that starts a comment hides the value up to its first line break, and what stands
behind that is read as a part of the statement. -/
theorem statements_unbound : ¬ ∀ (D : Dialect Char Char Mode) (esc : Str → Str),
    D.quote = '\'' → D.Encodes esc → ∀ (tableName : Str) (vars : StdMap), '\'' ∉ tableName →
      Named vars → Bound D (insertStatement esc tableName) (insertTokens D tableName) vars := by
  intro claim
  have named : Named ⟨[("name".toList, [])], by decide⟩ := by
    intro it member
    have same : it = ("name".toList, []) := by simpa using member
    subst same
    decide
  have bound := claim lineComments (double '\'') rfl lineComments_encodes "t -- ".toList
    ⟨[("name".toList, [])], by decide⟩ (by decide) named
  have shapes := bound.2.2 ⟨[("name".toList, "\nx".toList)], by decide⟩ rfl
  exact absurd shapes (by decide)

end Solusek.Transaction
