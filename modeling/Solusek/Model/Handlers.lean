import Solusek.Model.Database
import Solusek.Model.Transaction

/-!
# Database handlers

`CDatabaseHandler` of both real backends, and the pool with the handler of each instance. What the
client library answers is an argument. A handle, a `MYSQL` or a `pqxx::connection`, is numbered as
it is made.
-/

namespace Solusek.Handlers

open Transaction Database

/-! ### Connection strings -/

/-- What `open` takes out of a connection string. -/
structure Target where
  host : Str
  username : Str
  password : Str
  dbname : Str
  deriving DecidableEq, Repr

/-- `username`, `password` and `host`, which stand in front of the database. -/
def authority (p1 : Str) : Except Exn (Str × Str × Str) :=
  match findChar p1 '@' with
  | some n => do
    let p2 ← substr p1 0 (some n)
    let host ← substr p1 (n + 1)
    match findChar p2 ':' with
    | some n =>
      let username ← substr p2 0 (some n)
      let password ← substr p2 (n + 1)
      pure (username, password, host)
    | none => pure (p2, [], host)
  | none => pure ([], [], p1)

/-- The first part of `open`, which returns `false` where there is no target. -/
def target (ConnectionString : Str) : Except Exn (Option Target) :=
  if ConnectionString.length < 8 ∨ ConnectionString.take 8 ≠ "mysql://".toList then pure none
  else
    match find "://".toList ConnectionString with
    | none => pure none
    | some n => do
      let cs ← substr ConnectionString (n + 3)
      match findChar cs '/' with
      | none => pure none
      | some n =>
        let p1 ← substr cs 0 (some n)
        let dbname ← substr cs (n + 1)
        let (username, password, host) ← authority p1
        pure (some { host, username, password, dbname })

/-! ### The client library -/

inductive LibraryCall where
  /-- `mysql_real_connect` -/
  | connect (handle : Nat) (host username password : Str)
  /-- `mysql_select_db` -/
  | selectDb (handle : Nat) (dbname : Str)
  /-- `new pqxx::connection` -/
  | construct (handle : Nat) (connectionString : Str)
  /-- `mysql_close`, or `delete` -/
  | close (handle : Nat)
  deriving DecidableEq, Repr

/-- The handles made, and the calls on them in order. -/
structure Library where
  made : Nat := 0
  calls : List LibraryCall := []

def Library.call (lib : Library) (call : LibraryCall) : Library :=
  { lib with calls := lib.calls ++ [call] }

/-- Whether `mysql_init`, the connection and `mysql_select_db` succeed. A `pqxx::connection` has
the second of them only. -/
structure Answers where
  init : Bool
  connect : Bool
  select : Bool

structure CDatabaseHandler where
  C : Option Nat := none
  ConnectionString : Str
  deriving DecidableEq, Repr

namespace CDatabaseHandler

def openMysql (h : CDatabaseHandler) (answers : Answers) (lib : Library) :
    Except Exn Bool × CDatabaseHandler × Library :=
  match target h.ConnectionString with
  | .error e => (.error e, h, lib)
  | .ok none => (.ok false, h, lib)
  | .ok (some t) =>
    if !answers.init then (.ok false, { h with C := none }, lib)
    else
      let C := lib.made
      let h := { h with C := some C }
      let lib := { lib with made := lib.made + 1 }
      let lib := lib.call (.connect C (cstr t.host) (cstr t.username) (cstr t.password))
      if !answers.connect then (.ok false, h, lib)
      else (.ok answers.select, h, lib.call (.selectDb C (cstr t.dbname)))

-- A constructor that throws leaves nothing behind.
def openPqxx (h : CDatabaseHandler) (answers : Answers) (lib : Library) :
    Except Exn Bool × CDatabaseHandler × Library :=
  if !answers.connect then (.ok false, h, lib)
  else
    let C := lib.made
    let lib := { lib with made := lib.made + 1 }
    (.ok true, { h with C := some C }, lib.call (.construct C (cstr h.ConnectionString)))

def «open» (backend : Backend) : CDatabaseHandler → Answers → Library →
    Except Exn Bool × CDatabaseHandler × Library :=
  match backend with
  | .mysql => openMysql
  | .pqxx => openPqxx

def close (h : CDatabaseHandler) (lib : Library) : CDatabaseHandler × Library :=
  match h.C with
  | some C => ({ h with C := none }, lib.call (.close C))
  | none => ({ h with C := none }, lib)

/-- What keeps `begin` from throwing, or from using a null pointer. -/
def connected (h : CDatabaseHandler) : Bool := h.C.isSome

end CDatabaseHandler

/-! ### The pool -/

/-- The pool with the member `H` of every instance that has not been deleted. An instance whose
`open` has failed is in no list of the pool, and nobody deletes it. -/
structure Pool where
  db : CDatabase
  handlers : List (Nat × CDatabaseHandler) := []
  lib : Library := {}

namespace Pool

def new : Pool := { db := CDatabase.new }

/-- The member `H` of instance `id`. -/
def handler (p : Pool) (id : Nat) : Option CDatabaseHandler :=
  (p.handlers.find? fun it => it.1 == id).map Prod.snd

/-- `CDatabase::open` with the constructor of `CDatabaseInstance`. -/
def «open» (backend : Backend) (p : Pool) (now : Int) (answers : Answers) : Except Exn Nat × Pool :=
  match p.db.getUnusedInstance p.db.ConnectionString with
  | some di => (.ok di.getID, p)
  | none =>
    let H : CDatabaseHandler := { ConnectionString := p.db.ConnectionString }
    match H.open backend answers p.lib with
    | (.error e, _, lib) => (.error e, { p with lib := lib })
    | (.ok connected, H, lib) =>
      let (answer, db) := p.db.open now connected
      (answer, { db, handlers := p.handlers ++ [(p.db.Counter, H)], lib })

/-- `~CDatabaseInstance`. -/
def delete (p : Pool) (id : Nat) : Pool :=
  match p.handler id with
  | some H =>
    { p with
      handlers := p.handlers.filter fun it => it.1 != id
      lib := (H.close p.lib).2 }
  | none => p

def poolThread (p : Pool) (now : Nat → Int) : Pool :=
  let (db, gone) := p.db.poolThread now
  gone.foldl delete { p with db := db }

def closeAll (p : Pool) : Pool :=
  let (db, gone) := p.db.closeAll
  gone.foldl delete { p with db := db }

end Pool

end Solusek.Handlers
