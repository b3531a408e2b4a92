import Solusek.Model.Transaction

/-!
# What a statement gives back

The two database handlers' `exec`, `insert`, `query` and `queryOne`, and the handles that
`CTransaction` makes of their results. How the client library answers a statement is an
argument, and so is `nullWhat`, the text of what pqxx throws when a field that is missing or
NULL is read as a string. `RS` is a member of the handle itself: no caller passes a null
pointer.
-/

namespace Solusek.Results

open Transaction

/-- How the client library answers a statement. Without a result set `mysql_store_result`
returns null; pqxx then gives a result of no rows. A field that is `none` is NULL. -/
inductive Outcome where
  | rejected (what : Str)
  | accepted (result : Option (List (List (Option Str)))) (insertId : Nat)

def Outcome.isAccepted : Outcome → Bool
  | .rejected _ => false
  | .accepted _ _ => true

/-- How a call ends. `undefined`: it runs off the end of its body, or reads past a vector. -/
inductive Ended (α : Type*) where
  | returned (a : α)
  | thrown
  | undefined

def Ended.map {α β : Type*} (f : α → β) : Ended α → Ended β
  | .returned a => .returned (f a)
  | .thrown => .thrown
  | .undefined => .undefined

/-- What the member `Resource` points to. -/
inductive Pointer where
  | null
  | result
  | work
  deriving DecidableEq, Repr

structure CDatabaseResource where
  ID : Str := []
  Error : Str := []
  Resource : Pointer
  Data : List (List Str) := []
  deriving DecidableEq, Repr

namespace CDatabaseResource

/-- The constructor from a text. -/
def ofError (error : Str) : CDatabaseResource := { Resource := .null, Error := error }

/-- The constructor from a pointer, which is also what `CDatabaseResource(0)` calls. -/
def ofPointer (resource : Pointer) (id : Str := []) : CDatabaseResource :=
  { Resource := resource, ID := id }

def setData (r : CDatabaseResource) (data : List (List Str)) : CDatabaseResource :=
  { r with Data := data }

def isError (r : CDatabaseResource) : Bool := decide (r.Error.length > 0)

end CDatabaseResource

structure CDatabaseHandle where
  RS : CDatabaseResource
  deriving DecidableEq, Repr

namespace CDatabaseHandle

def getID (h : CDatabaseHandle) : Str := h.RS.ID

def getData (h : CDatabaseHandle) : List (List Str) := h.RS.Data

def isError (h : CDatabaseHandle) : Bool := h.RS.isError

def getError (h : CDatabaseHandle) : Str := h.RS.Error

end CDatabaseHandle

/-- A field as both loops over a row copy it. -/
def fieldText (field : Option Str) : Str := (field.map cstr).getD []

def rowText (row : List (Option Str)) : List Str := row.map fieldText

/-! ### MySQL -/

namespace Mysql

def exec : Outcome → Ended Int
  | .rejected _ => .returned 1
  | .accepted _ _ => .returned 0

def insert (s : Str) : Outcome → Ended CDatabaseResource
  | .accepted (some _) insertId => .returned (.ofPointer .result (printNat insertId))
  -- no `return` behind `if(res)`
  | .accepted none _ => .undefined
  | .rejected _ => .returned (.ofError s)

/-- What `query` returns, and the rows it hands to the callback. -/
def query : Outcome → Ended (Bool × List (List Str))
  | .accepted (some rows) _ => .returned (true, rows.map rowText)
  | .accepted none _ => .returned (false, [])
  | .rejected _ => .returned (false, [])

def queryOne : Outcome → Ended CDatabaseResource
  | .accepted (some (row :: _)) _ =>
    match row with
    | [] => .undefined
    -- `std::string` of a null `row[0]`
    | none :: _ => .thrown
    | some id :: _ => .returned ((CDatabaseResource.ofPointer .null (cstr id)).setData [rowText row])
  | _ => .returned (.ofPointer .null)

end Mysql

/-! ### PQXX -/

namespace Pqxx

def exec : Outcome → Ended Int
  | .rejected _ => .returned (-1)
  | .accepted _ _ => .returned 0

def insert (nullWhat : Str) : Outcome → Ended CDatabaseResource
  | .rejected what => .returned (.ofError what)
  | .accepted result _ =>
    match result.getD [] with
    | (some id :: _) :: _ => .returned (.ofPointer .work id)
    -- `as<std::string>()` throws, and the `catch` takes it for a rejected statement
    | _ => .returned (.ofError nullWhat)

def query : Outcome → Ended (Bool × List (List Str))
  | .rejected _ => .returned (false, [])
  | .accepted result _ => .returned (true, (result.getD []).map rowText)

def queryOne : Outcome → Ended CDatabaseResource
  | .rejected what => .returned (.ofError what)
  | .accepted result _ =>
    match result.getD [] with
    | [] => .returned (.ofPointer .null)
    | row :: _ =>
      match rowText row with
      -- `result[0]` of a row without columns
      | [] => .undefined
      | id :: rest => .returned ((CDatabaseResource.ofPointer .null id).setData [id :: rest])

end Pqxx

/-! ### The calls of a program -/

namespace CDatabaseTransaction

variable (backend : Backend) (nullWhat : Str)

def exec : Outcome → Ended Int :=
  match backend with
  | .mysql => Mysql.exec
  | .pqxx => Pqxx.exec

def insert (s : Str) : Outcome → Ended CDatabaseResource :=
  match backend with
  | .mysql => Mysql.insert s
  | .pqxx => Pqxx.insert nullWhat

def query : Outcome → Ended (Bool × List (List Str)) :=
  match backend with
  | .mysql => Mysql.query
  | .pqxx => Pqxx.query

def queryOne : Outcome → Ended CDatabaseResource :=
  match backend with
  | .mysql => Mysql.queryOne
  | .pqxx => Pqxx.queryOne

end CDatabaseTransaction

namespace CTransaction

open Transaction.CTransaction (Op)

inductive Answer where
  | code (r : Int)
  | flag (r : Bool)
  | handle (r : CDatabaseHandle)
  deriving DecidableEq, Repr

variable (backend : Backend) (esc : Str → Str) (nullWhat : Str)

def exec (outcome : Outcome) : Ended Answer :=
  (CDatabaseTransaction.exec backend outcome).map .code

def insert (tableName : Str) (vars : StdMap) (outcome : Outcome) : Ended Answer :=
  (CDatabaseTransaction.insert backend nullWhat (insertStatement esc tableName vars) outcome).map
    fun rs => .handle ⟨rs⟩

def update (outcome : Outcome) : Ended Answer :=
  (CDatabaseTransaction.query backend outcome).map fun r => .flag r.1

def selectOne (outcome : Outcome) : Ended Answer :=
  (CDatabaseTransaction.queryOne backend outcome).map fun rs => .handle ⟨rs⟩

/-- `selectCallback` copies each row into the resource; what `query` returns is dropped. -/
def selectCustom (outcome : Outcome) : Ended Answer :=
  (CDatabaseTransaction.query backend outcome).map
    fun r => .handle ⟨(CDatabaseResource.ofPointer .null).setData r.2⟩

/-- The second half of `select`, which is that of `selectCustom`. -/
def select (outcome : Outcome) : Ended Answer :=
  (CDatabaseTransaction.query backend outcome).map
    fun r => .handle ⟨(CDatabaseResource.ofPointer .null).setData r.2⟩

def Op.answer : Op → Outcome → Ended Answer
  | .exec _ => exec backend
  | .insert tableName vars => insert backend esc nullWhat tableName vars
  | .update _ _ _ => update backend
  | .selectOne _ _ _ _ => selectOne backend
  | .selectCustom _ => selectCustom backend
  | .select _ _ _ _ _ => select backend

end CTransaction

end Solusek.Results
