import Solusek.Model.Cxx

/-!
# Sessions

`CSession` and the part of `CServer` that keeps sessions. Objects are never moved, so a
pointer to a session (or to one of its items) is its place in the list of all that were made.
-/

namespace Solusek.Session

structure CSession where
  ID : Str
  /-- Every `CVarVal` the session has made. -/
  heap : List CVarVal := []
  Items : List Nat := []
  deriving DecidableEq, Repr

namespace CSession

/-- The constructor: the session, and the static `Incremental` it leaves behind. -/
def new (now Incremental : Nat) : CSession × Nat :=
  let Incremental := if Incremental ≥ 4294967295 then 0 else Incremental
  ({ ID := printNat now ++ printNat Incremental }, Incremental + 1)

def getID (ses : CSession) : Str := ses.ID

def get (ses : CSession) (name : Str) : Option Nat :=
  ses.Items.find? fun vv => (ses.heap[vv]?).map (·.Var) == some name

def getStringValue (ses : CSession) (name : Str) : Str :=
  match (ses.get name).bind (ses.heap[·]?) with
  | some vv => vv.Val
  | none => []

def setStringValue (ses : CSession) (name value : Str) : CSession :=
  let entry : CVarVal := { Var := name, Val := value }
  match ses.get name with
  | some vv => { ses with heap := ses.heap.set vv entry, Items := ses.Items ++ [vv] }
  | none => { ses with heap := ses.heap ++ [entry], Items := ses.Items ++ [ses.heap.length] }

/-- `~CSession`: what it deletes, one after another. -/
def destructor (ses : CSession) : List Nat := ses.Items

end CSession

/-- The sessions of a server and the counter its process numbers them with. -/
structure SessionTable where
  Incremental : Nat
  /-- Every `CSession` made; `destroySession` only forgets the pointer. -/
  heap : List CSession
  Sessions : List Nat
  deriving DecidableEq, Repr

namespace SessionTable

def new : SessionTable := { Incremental := 0, heap := [], Sessions := [] }

/-- `(*it)->getID()`. -/
def idOf (s : SessionTable) (p : Nat) : Option Str := (s.heap[p]?).map CSession.getID

/-- The new session is the last of `heap`. -/
def startSession (s : SessionTable) (now : Nat) : SessionTable :=
  let (ses, Incremental) := CSession.new now s.Incremental
  { Incremental, heap := s.heap ++ [ses], Sessions := s.Sessions ++ [s.heap.length] }

def getSession (s : SessionTable) (id : Str) : Option Nat :=
  s.Sessions.find? fun p => s.idOf p == some id

/-- `setStringValue` on the session behind a pointer. -/
def setStringValue (s : SessionTable) (p : Nat) (name value : Str) : SessionTable :=
  { s with heap := s.heap.modify p (·.setStringValue name value) }

/-- `getStringValue` on the session behind a pointer. -/
def getStringValue (s : SessionTable) (p : Nat) (name : Str) : Str :=
  match s.heap[p]? with
  | some ses => ses.getStringValue name
  | none => []

def destroySession (s : SessionTable) (id : Str) : SessionTable :=
  { s with Sessions := s.Sessions.eraseP fun p => s.idOf p == some id }

end SessionTable

end Solusek.Session
