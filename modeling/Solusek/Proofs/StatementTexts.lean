import Solusek.Lib.Literals
import Solusek.Model.Transaction

/-!
# The loops over the columns

The loops of `CTransaction` put pieces of text and literals one after another, and what they write
lexes to the tokens of the pieces with the values between them.
-/

namespace Solusek.Transaction

open Literals Dialect Texts

variable {τ σ : Type*}

/-! ### The loops -/

theorem separated_of_ne_nil {acc : Str} (written : acc ≠ []) (sep : Str) :
    separated acc sep = acc ++ sep := by
  unfold separated
  rw [if_pos (List.length_pos_of_ne_nil written)]

theorem foldl_separated {κ : Type*} {f : κ → Str} {sep : Str} {l : List κ}
    (written : ∀ it ∈ l, f it ≠ []) :
    l.foldl (fun acc it => separated acc sep ++ f it) [] = sep.intercalate (l.map f) := by
  have later : ∀ l : List κ, (∀ it ∈ l, f it ≠ []) → ∀ acc : Str, acc ≠ [] →
      l.foldl (fun acc it => separated acc sep ++ f it) acc =
        acc ++ (l.map f).flatMap (sep ++ ·) := by
    intro l
    induction l with
    | nil => simp
    | cons it l ih =>
      intro written acc nonempty
      rw [List.foldl_cons, separated_of_ne_nil nonempty,
        ih (fun other member => written other (List.mem_cons_of_mem _ member)) _ (by simp [nonempty])]
      simp
  cases l with
  | nil => rfl
  | cons it l =>
    have first : separated [] sep ++ f it = f it := rfl
    rw [List.foldl_cons, first, later l
      (fun other member => written other (List.mem_cons_of_mem _ member)) _
      (written it List.mem_cons_self), List.map_cons, intercalate_cons]

theorem assignments_eq (sep : Str) (enc : Str → Str) (vars : StdMap) :
    assignments sep enc vars =
      sep.intercalate (vars.entries.map fun it =>
        (it.1 ++ ['=']) ++ '\'' :: (enc it.2 ++ ['\''])) := by
  rw [← foldl_separated (by simp)]
  simp [assignments]

theorem foldl_columns (esc : Str → Str) (l : List (Str × Str)) (acc vals : Str) :
    l.foldl (fun accs it => (separated accs.1 ",".toList ++ it.1,
      separated accs.2 ",".toList ++ "'".toList ++ esc it.2 ++ "'".toList)) (acc, vals) =
      (l.foldl (fun acc it => separated acc ",".toList ++ it.1) acc,
        l.foldl (fun vals it => separated vals ",".toList ++ '\'' :: (esc it.2 ++ ['\''])) vals) := by
  induction l generalizing acc vals with
  | nil => rfl
  | cons it l ih =>
    simp only [List.foldl_cons, ih]
    simp

theorem insertLists_eq {esc : Str → Str} {vars : StdMap}
    (named : ∀ it ∈ vars.entries, it.1 ≠ []) :
    insertLists esc vars =
      (",".toList.intercalate (vars.entries.map Prod.fst),
        ",".toList.intercalate (vars.entries.map fun it => '\'' :: (esc it.2 ++ ['\'']))) := by
  have columns := foldl_columns esc vars.entries [] []
  rw [foldl_separated named, foldl_separated (by simp)] at columns
  exact columns

/-! ### The tokens of a statement -/

/-- The pieces of `column='value'` texts, each up to its opening quote. -/
def assignmentPieces (pre sep : Str) (vars : StdMap) : List (Str × Str) :=
  pieces pre sep (vars.entries.map fun it => (it.1 ++ ['='], it.2))

theorem render_assignments {D : Dialect Char τ σ} (quoted : D.quote = '\'') (enc : Str → Str)
    (pre sep : Str) {vars : StdMap} (nonempty : vars.entries ≠ []) (post : Str) :
    D.render enc (assignmentPieces pre sep vars) post =
      pre ++ assignments sep enc vars ++ post := by
  unfold assignmentPieces
  rw [D.render_pieces enc pre sep (by simpa using nonempty), assignments_eq, quoted]
  simp [Function.comp_def]

theorem assignmentPieces_clean {quote : Char} {pre sep : Str} {vars : StdMap}
    (equals : quote ≠ '=') (before : quote ∉ pre) (between : quote ∉ sep)
    (clean : ∀ it ∈ vars.entries, quote ∉ it.1) :
    ∀ item ∈ assignmentPieces pre sep vars, quote ∉ item.1 := by
  apply pieces_clean before between
  intro item member
  obtain ⟨it, inside, rfl⟩ := List.mem_map.mp member
  simpa [equals] using clean it inside

/-- The tokens of a statement with a list of literals: with no literal its text is `bare`. -/
def listTokens (D : Dialect Char τ σ) (bare : Str) (items : List (Str × Str)) (post : Str) :
    List (Token Char τ) :=
  if items = [] then (D.words D.start bare).map .word else D.tokens D.start items post

/-- The text of `insert` up to the first value. -/
def insertHead (tableName : Str) (columns : List Str) : Str :=
  "INSERT INTO ".toList ++ cstr tableName ++ " (".toList ++ ",".toList.intercalate columns ++
    ") VALUES (".toList

/-- The pieces of an insert: what stands in front of each value. -/
def insertPieces (tableName : Str) (vars : StdMap) : List (Str × Str) :=
  pieces (insertHead tableName (vars.entries.map Prod.fst)) ",".toList
    (vars.entries.map fun it => ([], it.2))

def insertTokens (D : Dialect Char τ σ) (tableName : Str) (vars : StdMap) :
    List (Token Char τ) :=
  listTokens D (insertHead tableName (vars.entries.map Prod.fst) ++ ")".toList)
    (insertPieces tableName vars) ")".toList

def selectHead (tableName : Str) (find : List Str) : Str :=
  "SELECT ".toList ++ selectColumns find ++ " FROM ".toList ++ cstr tableName

def orderBy (sort : Str) : Str := if sort = [] then [] else " ORDER BY ".toList ++ sort

def limitTo (limit : Str) : Str := if limit = [] then [] else " LIMIT ".toList ++ limit

/-- The pieces of the conditions of a `SELECT`. -/
def selectPieces (tableName : Str) (find : List Str) (vars : StdMap) : List (Str × Str) :=
  assignmentPieces (selectHead tableName find ++ " WHERE ".toList) " AND ".toList vars

/-- The tokens of a `SELECT` whose text ends with `post`. -/
def selectTokens (D : Dialect Char τ σ) (tableName : Str) (find : List Str) (vars : StdMap)
    (post : Str) : List (Token Char τ) :=
  listTokens D (selectHead tableName find ++ post) (selectPieces tableName find vars) post

/-- The texts in front of the values leave the lexer where a quote opens a literal. -/
def Readable (D : Dialect Char τ σ) (items : List (Str × Str)) : Prop :=
  D.Readable D.start (items.map Prod.fst)

instance (D : Dialect Char τ σ) (items : List (Str × Str)) : Decidable (Readable D items) :=
  inferInstanceAs (Decidable (D.Readable D.start (items.map Prod.fst)))

theorem lex_listTokens {D : Dialect Char τ σ} {esc : Str → Str} (encodes : D.Encodes esc)
    {text bare post : Str} {items : List (Str × Str)} (empty : items = [] → text = bare)
    (written : items ≠ [] → text = D.render esc items post) (plain : D.quote ∉ bare)
    (clean : ∀ item ∈ items, D.quote ∉ item.1) (apart : ∀ item ∈ items.tail, item.1 ≠ [])
    (last : D.quote ∉ post) (readable : Readable D items) :
    D.lex text = listTokens D bare items post := by
  unfold listTokens
  split
  · rename_i bareItems
    rw [empty bareItems]
    exact lexFuel_clean plain _ (Nat.lt_succ_self _)
  · rename_i filled
    rw [written filled]
    exact lex_render encodes clean apart last readable

theorem literals_listTokens (D : Dialect Char τ σ) (bare : Str) (items : List (Str × Str))
    (post : Str) : literals (listTokens D bare items post) = items.map Prod.snd := by
  unfold listTokens
  split
  · rename_i empty
    simp [empty, literals, Token.value?]
  · exact D.literals_tokens D.start items post

theorem skeleton_listTokens (D : Dialect Char τ σ) (bare : Str) (items : List (Str × Str))
    (post : Str) : skeleton (listTokens D bare items post) =
      listTokens D bare (items.map fun item => (item.1, [])) post := by
  unfold listTokens
  split
  · rename_i empty
    simp [empty, skeleton, Token.shape]
  · rename_i nonempty
    rw [if_neg (by simpa using nonempty), D.skeleton_tokens]

end Solusek.Transaction
