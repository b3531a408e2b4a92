import Solusek.Model.Cxx

/-!
# The connection pool

`CDatabase` and `CDatabaseInstance`. A pointer to an instance is the instance's `ID`, which
the constructor draws from `Counter`. Every reading of `time(0)` is an argument, and so is
the outcome of `CDatabaseHandler::open`.
-/

namespace Solusek.Database

structure CDatabaseInstance where
  ID : Nat
  Connected : Bool
  Used : Bool
  ConnectionString : Str
  T : Int
  deriving DecidableEq, Repr

namespace CDatabaseInstance

/-- The constructor; `connected` is what `H.open()` returns. -/
def new (counter : Nat) (now : Int) (connectionString : Str) (connected : Bool) :
    CDatabaseInstance :=
  let i : CDatabaseInstance :=
    { ID := counter, Connected := connected, Used := true,
      ConnectionString := connectionString, T := now }
  if !i.Connected then { i with Used := false, T := 0 } else i

def getID (i : CDatabaseInstance) : Nat := i.ID

def inUse (i : CDatabaseInstance) : Bool := i.Used

def putInUse (i : CDatabaseInstance) (now : Int) : CDatabaseInstance :=
  { i with Used := true, T := now }

def getConnectionString (i : CDatabaseInstance) : Str := i.ConnectionString

def getT (i : CDatabaseInstance) : Int := i.T

def isConnected (i : CDatabaseInstance) : Bool := i.Connected

def dispose (i : CDatabaseInstance) : CDatabaseInstance := { i with Used := false }

end CDatabaseInstance

structure CDatabase where
  ConnectionString : Str
  Instances : List CDatabaseInstance
  ExpireSeconds : Int
  /-- The static `CDatabaseInstance::Counter`. -/
  Counter : Nat
  deriving DecidableEq, Repr

namespace CDatabase

/-- The constructor, in a process that has made no instance yet. -/
def new : CDatabase :=
  { ConnectionString := [], Instances := [], ExpireSeconds := 30, Counter := 1 }

def setConnectionString (db : CDatabase) (cs : Str) : CDatabase :=
  { db with ConnectionString := cs }

/-- The argument `cs` is not read: the loop compares with the member. -/
def getUnusedInstance (db : CDatabase) (_cs : Str) : Option CDatabaseInstance :=
  db.Instances.find? fun i => !i.inUse && db.ConnectionString == i.getConnectionString

def «open» (db : CDatabase) (now : Int) (connected : Bool) : Except Exn Nat × CDatabase :=
  match db.getUnusedInstance db.ConnectionString with
  | some di => (.ok di.getID, db)
  | none =>
    let di := CDatabaseInstance.new db.Counter now db.ConnectionString connected
    let db := { db with Counter := db.Counter + 1 }
    if !di.isConnected then
      (.error (.runtimeError "Failed to open connection to database.".toList), db)
    else (.ok di.getID, { db with Instances := db.Instances ++ [di] })

/-- The test `_poolThread` makes on one instance; `now` is `time(0)` at that moment. -/
def expired (ExpireSeconds : Int) (now : Int) (i : CDatabaseInstance) : Bool :=
  !i.inUse && decide (now - i.getT > ExpireSeconds)

/-- One pass of `_poolThread` over `Instances`: what it keeps, and the instances it deletes.
`now id` is the reading of `time(0)` when it looks at instance `id`. -/
def poolPass (ExpireSeconds : Int) (now : Nat → Int) :
    List CDatabaseInstance → List CDatabaseInstance × List Nat
  | [] => ([], [])
  | i :: rest =>
    let (kept, gone) := poolPass ExpireSeconds now rest
    if expired ExpireSeconds (now i.getID) i then (kept, i.getID :: gone)
    else (i :: kept, gone)

def poolThread (db : CDatabase) (now : Nat → Int) : CDatabase × List Nat :=
  let (kept, gone) := poolPass db.ExpireSeconds now db.Instances
  ({ db with Instances := kept }, gone)

/-- `dispose()` called on the instance `id` of the pool. -/
def disposeInstance (db : CDatabase) (id : Nat) : CDatabase :=
  { db with Instances := db.Instances.map fun i => if i.getID = id then i.dispose else i }

/-- `closeAll`, and the instances it deletes: from the back until the pool is empty. -/
def closeAll (db : CDatabase) : CDatabase × List Nat :=
  ({ db with Instances := [] }, db.Instances.reverse.map (·.getID))

end CDatabase

end Solusek.Database
