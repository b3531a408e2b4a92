import Solusek.Lib.Lifetimes
import Solusek.Model.Config
import Solusek.Model.Server
import Solusek.Model.Session

/-!
# The objects of a server

What a program's calls on `CServer` and its sessions, the accept loop and the node threads make
with `new`, use and `delete`, one after another. Objects are numbered as they are made, and those
of a connection have its number. An access to the server stands for those to the endpoints,
directories and entries that it alone keeps. The listening socket and the socket of `stop` are left
out.
-/

namespace Solusek.Objects

open Lifetimes Session

inductive Object where
  | server
  | database
  | config (c : Nat)
  /-- The `CConfig::CNode` at this place below `BaseNode`. -/
  | setting (c : Nat) (place : List Nat)
  | endpoint (e : Nat)
  | staticEndpoint (k : Nat)
  | session (p : Nat)
  /-- A `CVarVal` of a session. -/
  | item (p vv : Nat)
  | socket (c : Nat)
  /-- `SServerPackage` -/
  | package (c : Nat)
  | node (c : Nat)
  /-- A `CVarVal` of a node. -/
  | header (c k : Nat)
  /-- The `MEndpoint` that `getStaticEndpoint` makes. -/
  | page (c : Nat)
  deriving DecidableEq, Repr

/-- A pointer that is null, or that nobody has set, is `none`. -/
abbrev Happening := Event (Option Object)

abbrev new (o : Object) : Happening := .made (some o)

abbrev use (o : Object) : Happening := .used (some o)

abbrev delete (o : Object) : Happening := .released (some o)

/-! ### Configurations -/

mutual

/-- A node and what is below it, in the order of the lines. -/
def places (here : List Nat) : Config.CNode → List (List Nat)
  | .mk _ _ Children => here :: placesBelow here 0 Children

def placesBelow (here : List Nat) (k : Nat) : List Config.CNode → List (List Nat)
  | [] => []
  | node :: rest => places (here ++ [k]) node ++ placesBelow here (k + 1) rest

end

mutual

/-- `~CNode` deletes the children first. -/
def deletions (here : List Nat) : Config.CNode → List (List Nat)
  | .mk _ _ Children => deletionsBelow here 0 Children ++ [here]

def deletionsBelow (here : List Nat) (k : Nat) : List Config.CNode → List (List Nat)
  | [] => []
  | node :: rest => deletions (here ++ [k]) node ++ deletionsBelow here (k + 1) rest

end

/-! ### Connections -/

/-- How a node's run goes, with the number of entries that `readHeader` makes. -/
structure Route extends Server.Route where
  headers : Nat

namespace Route

/-- `~CNode` -/
def deleteNode (r : Route) (c : Nat) : List Happening :=
  (List.range r.headers).map (fun k => delete (.header c k)) ++ [delete (.node c)]

/-- What a step of thread `c` does, where `socket` is what the package has. -/
def happens (r : Route) (c : Nat) (socket : Option Object) : Server.NodeStep → List Happening
  | .log => [use .server]
  | .newNode => [use (.package c), new (.node c), .used socket]
  | .pushNode => [use .server, use (.node c), .used socket] ++
      (List.range r.headers).map fun k => new (.header c k)
  | .getEndpoint => [use (.node c), use .server]
  | .callback => [use .server]
  | .getStaticEndpoint => [use (.node c), use .server] ++
      match r.found with
      | .staticEndpoint => [new (.page c)]
      | .endpoint | .missing => []
  | .writeResponse _ =>
      match r.found with
      | .staticEndpoint => [use (.page c), use (.node c), .used socket, delete (.page c)]
      | .endpoint | .missing => [use (.node c), .used socket]
  | .removeNode => [use (.node c), .used socket, .released socket, use .server] ++ r.deleteNode c
  | .countDown => [use .server, delete (.package c)]

end Route

inductive Stage where
  /-- `accept` has returned. -/
  | accepted
  /-- `run` has deleted the socket again, as it is to stop. -/
  | dropped
  /-- `TH.create` has made no thread. -/
  | failed
  /-- The package's `ID` is set or not, and its thread has this to do. -/
  | serving (ID : Bool) (route : Route) (todo : List Server.NodeStep)

/-- For an address it refuses, `accept` returns null. -/
structure Connection where
  socket : Bool
  stage : Stage

/-- `run` is through with the connection. -/
def Connection.Begun (x : Connection) : Prop :=
  match x.stage with
  | .dropped | .failed => True
  | .serving ID _ _ => ID = true
  | .accepted => False

def Connection.Socket (x : Connection) (c : Nat) : Option Object :=
  if x.socket then some (.socket c) else none

/-! ### The server -/

structure State where
  /-- The top nodes of each configuration that has been made. -/
  configs : List (List Config.CNode)
  Config : Option Nat
  Endpoints : List Nat
  endpoints : Nat
  StaticEndpoints : List Nat
  sessions : SessionTable
  Nodes : List Nat
  connections : List Connection
  /-- `run` has returned. -/
  returned : Bool
  disposed : Bool
  log : List Happening

/-- What a search from the front looks at. -/
def upTo {α : Type*} (p : α → Bool) : List α → List α
  | [] => []
  | x :: rest => x :: if p x then [] else upTo p rest

/-- The calls of a program, in `main` or in its callbacks. -/
inductive Call where
  /-- What the file holds, or that it cannot be opened. -/
  | loadConfig (file : Option Str)
  /-- An endpoint that is made for this, or one that has been registered before. -/
  | registerEndpoint (e : Nat)
  | addStaticDirectory
  | startSession (now : Nat)
  | getSession (id : Str)
  | destroySession (id : Str)
  | setStringValue (p : Nat) (name value : Str)
  | getStringValue (p : Nat) (name : Str)

inductive Action where
  | call (call : Call)
  | accept (socket : Bool)
  /-- `socket->close(); delete socket; break;` -/
  | drop (c : Nat)
  /-- `TH.create` makes a thread, or returns an error code. -/
  | create (c : Nat) (route : Option Route)
  /-- `pkg->ID = threadId` -/
  | assign (c : Nat)
  | thread (c : Nat)
  | finish
  | dispose

namespace State

/-- The constructor. -/
def start : State :=
  { Config := none, configs := [], Endpoints := [], endpoints := 0, StaticEndpoints := [],
    sessions := SessionTable.new, Nodes := [], connections := [], returned := false,
    disposed := false, log := [new .server, new .database] }

def add (s : State) (happened : List Happening) : State := { s with log := s.log ++ happened }

/-- Where the file cannot be opened the constructor returns before it sets `BaseNode`, which the
destructor deletes. -/
def loadConfig (s : State) : Option Str → State
  | none =>
    { s with configs := s.configs ++ [[]], Config := none }.add
      [use .server, new (.config s.configs.length), .released none,
        delete (.config s.configs.length)]
  | some text =>
    match Config.baseNode (cstr text) with
    | .error _ => s
    | .ok top =>
      { s with configs := s.configs ++ [top], Config := some s.configs.length }.add
        ([use .server, new (.config s.configs.length)] ++
          (places [] (.mk [] [] top)).map fun place => new (.setting s.configs.length place))

def registerEndpoint (s : State) (e : Nat) : State :=
  if e = s.endpoints then
    { s with endpoints := s.endpoints + 1, Endpoints := s.Endpoints ++ [e] }.add
      [new (.endpoint e), use .server]
  else { s with Endpoints := s.Endpoints ++ [e] }.add [use .server]

def addStaticDirectory (s : State) : State :=
  let k := s.StaticEndpoints.length
  { s with StaticEndpoints := s.StaticEndpoints ++ [k] }.add
    [use .server, new (.staticEndpoint k)]

def startSession (s : State) (now : Nat) : State :=
  { s with sessions := s.sessions.startSession now }.add
    [use .server, new (.session s.sessions.heap.length)]

/-- The sessions that are asked for their ID. -/
def looked (s : State) (id : Str) : List Nat :=
  upTo (fun p => s.sessions.idOf p == some id) s.sessions.Sessions

def getSession (s : State) (id : Str) : State :=
  s.add ([use .server] ++ (s.looked id).map fun p => use (.session p))

def destroySession (s : State) (id : Str) : State :=
  { s with sessions := s.sessions.destroySession id }.add
    ([use .server] ++ (s.looked id).map fun p => use (.session p))

/-- What `CSession::get` does on the session behind a pointer. -/
def get (ses : CSession) (p : Nat) (name : Str) : List Happening :=
  [use (.session p)] ++
    (upTo (fun vv => (ses.heap[vv]?).map (·.Var) == some name) ses.Items).map fun vv =>
      use (.item p vv)

def setStringValue (s : State) (p : Nat) (name value : Str) : State :=
  match s.sessions.heap[p]? with
  | none => s
  | some ses =>
    { s with sessions := s.sessions.setStringValue p name value }.add
      (get ses p name ++
        match ses.get name with
        | some vv => [use (.item p vv)]
        | none => [new (.item p ses.heap.length), use (.item p ses.heap.length)])

def getStringValue (s : State) (p : Nat) (name : Str) : State :=
  match s.sessions.heap[p]? with
  | none => s
  | some ses => s.add (get ses p name)

def call (s : State) : Call → State
  | .loadConfig file => s.loadConfig file
  | .registerEndpoint e => s.registerEndpoint e
  | .addStaticDirectory => s.addStaticDirectory
  | .startSession now => s.startSession now
  | .getSession id => s.getSession id
  | .destroySession id => s.destroySession id
  | .setStringValue p name value => s.setStringValue p name value
  | .getStringValue p name => s.getStringValue p name

def put (s : State) (c : Nat) (x : Connection) (happened : List Happening) : State :=
  { s with connections := s.connections.set c x }.add happened

def accept (s : State) (socket : Bool) : State :=
  { s with connections := s.connections ++ [Connection.mk socket .accepted] }.add
    (if socket then [new (.socket s.connections.length)] else [])

def drop (s : State) (c : Nat) (x : Connection) : State :=
  s.put c { x with stage := .dropped } [.used (x.Socket c), .released (x.Socket c)]

/-- What `TH.create` returns is not looked at. -/
def create (s : State) (c : Nat) (x : Connection) : Option Route → State
  | some route =>
    s.put c { x with stage := .serving false route (Server.CServer.runNode route.toRoute) }
      [new (.package c)]
  | none => s.put c { x with stage := .failed } [new (.package c), use (.package c)]

def assign (s : State) (c : Nat) (x : Connection) (route : Route) (todo : List Server.NodeStep) :
    State :=
  s.put c { x with stage := .serving true route todo } [use (.package c)]

def listing (s : State) (c : Nat) : Server.NodeStep → State
  | .pushNode => { s with Nodes := s.Nodes ++ [c] }
  | .removeNode => { s with Nodes := s.Nodes.erase c }
  | _ => s

def thread (s : State) (c : Nat) (x : Connection) (route : Route) (step : Server.NodeStep)
    (rest : List Server.NodeStep) : State :=
  (s.listing c step).put c { x with stage := .serving true route rest }
    (route.happens c (x.Socket c) step)

/-- `delete Config` -/
def deleteConfig (s : State) : List Happening :=
  match s.Config with
  | none => []
  | some c => (deletions [] (.mk [] [] (s.configs.getD c []))).map (fun place =>
      delete (.setting c place)) ++ [delete (.config c)]

/-- The node threads are detached: to join one is as undefined as a pointer that nobody has set. -/
def joinNode (s : State) (c : Nat) : List Happening :=
  [use (.node c), .used none] ++
    match s.connections[c]? with
    | some { stage := .serving _ route _, .. } => route.deleteNode c
    | _ => []

def deleteSession (s : State) (p : Nat) : List Happening :=
  match s.sessions.heap[p]? with
  | none => []
  | some ses => ses.destructor.map (fun vv => delete (.item p vv)) ++ [delete (.session p)]

/-- `~CServer` -/
def dispose (s : State) : State :=
  { s with disposed := true, Nodes := [] }.add
    ([use .server] ++ s.deleteConfig ++ s.Nodes.reverse.flatMap s.joinNode ++
      s.Endpoints.reverse.map (fun e => delete (.endpoint e)) ++
      s.sessions.Sessions.reverse.flatMap s.deleteSession ++
      s.StaticEndpoints.reverse.map (fun k => delete (.staticEndpoint k)) ++
      [delete .database, delete .server])

def next (s : State) : Action → State
  | .call call => s.call call
  | .accept socket => s.accept socket
  | .drop c =>
    match s.connections[c]? with
    | some x => s.drop c x
    | none => s
  | .create c route =>
    match s.connections[c]? with
    | some x => s.create c x route
    | none => s
  | .assign c =>
    match s.connections[c]? with
    | some ⟨socket, .serving ID route todo⟩ => s.assign c ⟨socket, .serving ID route todo⟩ route todo
    | _ => s
  | .thread c =>
    match s.connections[c]? with
    | some ⟨socket, .serving ID route (step :: rest)⟩ =>
      s.thread c ⟨socket, .serving ID route (step :: rest)⟩ route step rest
    | _ => s
  | .finish => { s with returned := true }
  | .dispose => s.dispose

/-- Nobody calls a server that is gone, and `dispose` comes behind `run`, if that has been called.
An `int` has the length of a configuration file. `run` ends when it finds `Nodes` empty; in which
order it takes its other steps is left open. -/
def Allowed (s : State) : Action → Prop
  | .call call => s.disposed = false ∧
    match call with
    | .loadConfig (some text) => text.length < 2 ^ 31
    | .registerEndpoint e => e ≤ s.endpoints
    | .setStringValue p _ _ | .getStringValue p _ => p < s.sessions.heap.length
    | _ => True
  | .accept _ => s.returned = false ∧ s.disposed = false
  | .drop c | .create c _ => ∃ socket, s.connections[c]? = some ⟨socket, .accepted⟩
  | .assign c => ∃ socket route todo, s.connections[c]? = some ⟨socket, .serving false route todo⟩
  | .thread c => ∃ socket route step rest,
      s.connections[c]? = some ⟨socket, .serving true route (step :: rest)⟩
  | .finish => s.Nodes = [] ∧ ∀ x ∈ s.connections, x.Begun
  | .dispose => s.disposed = false ∧ (s.returned = true ∨ s.connections = [])

def Step (s : State) (a : Action) (t : State) : Prop := s.Allowed a ∧ t = s.next a

end State

end Solusek.Objects
