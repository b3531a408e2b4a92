import Solusek.Model.Cxx

/-!
# Transactions

The statement texts that `CTransaction` builds, and what it and the two database handlers
send to the server. `T->esc` is a parameter `esc`, and so is what the server makes of a
text. The rows of a result, the `Lock` and the handles of results are left out.
-/

namespace Solusek.Transaction

/-! ### Statement texts -/

section Texts

variable (esc : Str → Str)

/-- The separator the loops put between two entries: only behind a text that is not empty. -/
def separated (acc sep : Str) : Str := if acc.length > 0 then acc ++ sep else acc

/-- The loop that writes `column='value'` for every entry of a map. -/
def assignments (sep : Str) (enc : Str → Str) (vars : StdMap) : Str :=
  vars.entries.foldl
    (fun acc it => separated acc sep ++ it.1 ++ "='".toList ++ enc it.2 ++ "'".toList) []

/-- The loop over the selected columns. -/
def selectColumns (find : List Str) : Str :=
  find.foldl (fun q it => separated q ",".toList ++ it) []

/-- The loop of `insert`: the columns and the values. -/
def insertLists (vars : StdMap) : Str × Str :=
  vars.entries.foldl
    (fun accs it =>
      let (acc, vals) := accs
      let acc := separated acc ",".toList
      let vals := separated vals ",".toList
      (acc ++ it.1, vals ++ "'".toList ++ esc it.2 ++ "'".toList))
    ([], [])

def insertStatement (tableName : Str) (vars : StdMap) : Str :=
  let (acc, vals) := insertLists esc vars
  "INSERT INTO ".toList ++ cstr tableName ++ " (".toList ++ acc ++ ") VALUES (".toList ++ vals ++
    ")".toList

/-- The first loop of `update`, which does not call `esc`. -/
def updateFind (find : StdMap) : Str := assignments " AND ".toList id find

def updateVars (vars : StdMap) : Str := assignments ",".toList esc vars

def updateStatement (tableName : Str) (find vars : StdMap) : Str :=
  let acc := updateFind find
  let vals := updateVars esc vars
  "UPDATE ".toList ++ cstr tableName ++ " SET ".toList ++ vals ++ " WHERE ".toList ++ acc

/-- The second loop of `select` and of `selectOne`. -/
def selectVars (vars : StdMap) : Str := assignments " AND ".toList esc vars

/-- What `select` and `selectOne` build alike: all but the limit. -/
def selectBuilder (tableName : Str) (find : List Str) (vars : StdMap) (sort : Str) : Str :=
  let q := selectColumns find
  let acc := selectVars esc vars
  let builder := "SELECT ".toList ++ q ++ " FROM ".toList ++ cstr tableName
  let builder := if vars.entries.length > 0 then builder ++ " WHERE ".toList ++ acc else builder
  if sort.length > 0 then builder ++ " ORDER BY ".toList ++ sort else builder

def selectOneStatement (tableName : Str) (find : List Str) (vars : StdMap) (sort : Str) : Str :=
  selectBuilder esc tableName find vars sort ++ " LIMIT 1".toList

def selectStatement (tableName : Str) (find : List Str) (vars : StdMap) (sort limit : Str) : Str :=
  let builder := selectBuilder esc tableName find vars sort
  if limit.length > 0 then builder ++ " LIMIT ".toList ++ limit else builder

end Texts

/-! ### Sessions with the server -/

inductive Backend where
  | mysql
  | pqxx
  deriving DecidableEq, Repr

/-- The open transaction of a session: none, one with its own view of the data, or one that
an error has spoiled. -/
inductive Work (DB : Type*) where
  | idle
  | active (view : DB)
  | failed

structure Session (DB : Type*) where
  committed : DB
  work : Work DB

/-- What the server takes a statement text for: one that reads or changes data (`none`: an
error), or one that controls the session, such as `commit;`. -/
inductive Stmt (DB : Type*) where
  | data (effect : DB → Option DB)
  | control (effect : Session DB → Session DB)

namespace Session

variable {DB : Type*}

/-- A data statement outside a transaction is permanent at once. -/
def runData (backend : Backend) (s : Session DB) (effect : DB → Option DB) : Session DB :=
  match s.work with
  | .idle => { s with committed := (effect s.committed).getD s.committed }
  | .active view =>
    match effect view, backend with
    | some view, _ => { s with work := .active view }
    | none, .mysql => s
    | none, .pqxx => { s with work := .failed }
  | .failed => s

def run (backend : Backend) (s : Session DB) : Stmt DB → Session DB
  | .data effect => s.runData backend effect
  | .control effect => effect s

def startTransaction (s : Session DB) : Session DB := { s with work := .active s.committed }

def rollback (s : Session DB) : Session DB := { s with work := .idle }

end Session

/-- A server: what it makes of a text, and the escaping its client library does. -/
structure Server (DB : Type*) where
  parse : Str → Stmt DB
  esc : Str → Str

namespace CDatabaseTransaction

variable {DB : Type*} (backend : Backend) (server : Server DB)

def exec (s : Str) (session : Session DB) : Session DB := session.run backend (server.parse s)

/-- The statement text `insert` hands to the client library. -/
def insertText (s idField : Str) : Str :=
  match backend with
  | .mysql => s
  | .pqxx => s ++ " RETURNING ".toList ++ idField

def insert (s idField : Str) (session : Session DB) : Session DB :=
  session.run backend (server.parse (insertText backend s idField))

def query (s : Str) (session : Session DB) : Session DB := session.run backend (server.parse s)

def queryOne (s : Str) (session : Session DB) : Session DB := session.run backend (server.parse s)

/-- The destructor: a `pqxx::work` that is destroyed rolls back what is open. -/
def destroy (session : Session DB) : Session DB :=
  match backend with
  | .mysql => session
  | .pqxx => session.rollback

end CDatabaseTransaction

/-- `CDatabaseHandler::begin`: only the `pqxx::work` tells the server. -/
def begin {DB : Type*} (backend : Backend) (session : Session DB) : Session DB :=
  match backend with
  | .mysql => session
  | .pqxx => session.startTransaction

namespace CTransaction

/-- The calls a program makes between `begin()` and `dispose()`. -/
inductive Op where
  | exec (s : Str)
  | insert (tableName : Str) (vars : StdMap)
  | update (tableName : Str) (find vars : StdMap)
  | selectOne (tableName : Str) (find : List Str) (vars : StdMap) (sort : Str)
  | selectCustom (query : Str)
  | select (tableName : Str) (find : List Str) (vars : StdMap) (sort limit : Str)

variable {DB : Type*} (backend : Backend) (server : Server DB)

def exec (s : Str) : Session DB → Session DB := CDatabaseTransaction.exec backend server s

def insert (tableName : Str) (vars : StdMap) : Session DB → Session DB :=
  CDatabaseTransaction.insert backend server (insertStatement server.esc tableName vars) "id".toList

def update (tableName : Str) (find vars : StdMap) : Session DB → Session DB :=
  CDatabaseTransaction.query backend server (updateStatement server.esc tableName find vars)

def selectOne (tableName : Str) (find : List Str) (vars : StdMap) (sort : Str) :
    Session DB → Session DB :=
  CDatabaseTransaction.queryOne backend server
    (selectOneStatement server.esc tableName find vars sort)

def selectCustom (query : Str) : Session DB → Session DB :=
  CDatabaseTransaction.query backend server query

def select (tableName : Str) (find : List Str) (vars : StdMap) (sort limit : Str) :
    Session DB → Session DB :=
  CDatabaseTransaction.query backend server
    (selectStatement server.esc tableName find vars sort limit)

def commit : Session DB → Session DB := CDatabaseTransaction.exec backend server "commit;".toList

def dispose : Session DB → Session DB := CDatabaseTransaction.destroy backend

def Op.run : Op → Session DB → Session DB
  | .exec s => CTransaction.exec backend server s
  | .insert tableName vars => CTransaction.insert backend server tableName vars
  | .update tableName find vars => CTransaction.update backend server tableName find vars
  | .selectOne tableName find vars sort =>
    CTransaction.selectOne backend server tableName find vars sort
  | .selectCustom query => CTransaction.selectCustom backend server query
  | .select tableName find vars sort limit =>
    CTransaction.select backend server tableName find vars sort limit

end CTransaction

end Solusek.Transaction
