import Solusek.Model.Cxx

/-!
# The accept loop and its node threads

`CServer::run` from the point where the listening socket is bound, `stop`, and the threads
that run `thread_runNode`. Each access to a field of the server is one step. Threads are
numbered in the order they are created; the node of a thread has its thread's number. The
loop's log lines are left out: they read `ThreadCount` and change nothing.
-/

namespace Solusek.Server

/-! ### Node threads -/

/-- What a thread does from `runNode` on. All but `newNode`, which uses the socket, and
`writeResponse` are accesses to the server. -/
inductive NodeStep where
  | log
  | newNode
  | pushNode
  | getEndpoint
  | callback
  | getStaticEndpoint
  | writeResponse (sent : Bool)
  | removeNode
  | countDown
  deriving DecidableEq, Repr

/-- What `CNode::run` finds for its path. -/
inductive Found where
  | endpoint
  | staticEndpoint
  | missing
  deriving DecidableEq, Repr

/-- How a node's run goes: the `Path` that `readHeader` and `readBody` leave, or what one of
them throws, and whether `writeResponse` can send the answer. -/
structure Route where
  header : Except Exn Str
  found : Found
  sent : Bool

/-- `CNode::run`. Both `catch` clauses clear `Path`; each `writeResponse` has a `catch` of its
own. `dispose()` at the end calls `removeNode`. -/
def CNode.run (r : Route) : List NodeStep :=
  let Path := match r.header with
    | .ok path => path
    | .error _ => []
  (if Path.length > 0 then
    match r.found with
    | .endpoint => [.getEndpoint, .callback, .writeResponse r.sent]
    | .staticEndpoint | .missing => [.getEndpoint, .getStaticEndpoint, .writeResponse r.sent]
  else []) ++ [.removeNode]

def CServer.runNode (r : Route) : List NodeStep :=
  [.log, .log, .newNode, .pushNode] ++ CNode.run r ++ [.countDown]

structure Thread where
  /-- The package's `Socket` is not null. -/
  socket : Bool
  /-- The package's `ID` is set: `thread_runNode` waits for it. -/
  ID : Bool
  todo : List NodeStep
  deriving DecidableEq, Repr

/-! ### The accept loop -/

/-- Where `run` stands: the access it makes next. -/
inductive Loop where
  /-- `while (!StopSignal)` -/
  | head
  /-- `while (ThreadCount > ThreadLimit)` -/
  | limit
  /-- `MainSocket->accept()` -/
  | accepting
  /-- `ThreadCount++` -/
  | accepted (socket : Bool)
  /-- `if (StopSignal)` -/
  | counted (socket : Bool)
  /-- `TH.create` -/
  | creating (socket : Bool)
  /-- `pkg->ID = threadId` -/
  | created (thread : Option Nat)
  /-- `MainSocket->close()` -/
  | closing
  /-- `while (Nodes.size() > 0)` -/
  | draining
  /-- `return E_ERROR_NONE` -/
  | returned
  deriving DecidableEq, Repr

structure State where
  StopSignal : Bool
  ThreadLimit : UInt32
  ThreadCount : UInt32
  Nodes : List Nat
  threads : List Thread
  loop : Loop
  /-- A null socket has been used. -/
  undefined : Bool

inductive Action where
  | stop
  /-- The loop makes its next access. -/
  | loop
  /-- `accept` returns a socket, or null for an address it refuses. -/
  | accept (socket : Bool)
  /-- `TH.create` makes a thread, or returns an error code. -/
  | create (route : Option Route)
  /-- Thread `n` takes its next step. -/
  | thread (n : Nat)

namespace State

def start (limit : UInt32) : State :=
  { StopSignal := false, ThreadLimit := limit, ThreadCount := 0, Nodes := [], threads := [],
    loop := .head, undefined := false }

/-- The threads that have not finished: each serves one connection. -/
def served (s : State) : Nat := s.threads.countP fun t => t.todo ≠ []

def stop (s : State) : State := { s with StopSignal := true }

def loopNext (s : State) : State :=
  match s.loop with
  | .head => { s with loop := if s.StopSignal then .closing else .limit }
  | .limit => if s.ThreadCount > s.ThreadLimit then s else { s with loop := .accepting }
  | .accepted socket =>
    { s with ThreadCount := s.ThreadCount + 1, loop := .counted socket }
  | .counted socket =>
    if s.StopSignal then
      -- `socket->close(); delete socket; break;`
      if socket then { s with loop := .closing } else { s with undefined := true }
    else { s with loop := .creating socket }
  | .created (some n) =>
    { s with threads := s.threads.modify n fun t => { t with ID := true }, loop := .head }
  | .created none => { s with loop := .head }
  | .closing => { s with loop := .draining }
  | .draining => if s.Nodes.length > 0 then s else { s with loop := .returned }
  | .accepting | .creating _ | .returned => s

def accept (s : State) (socket : Bool) : State := { s with loop := .accepted socket }

/-- What `TH.create` returns is not looked at. -/
def create (s : State) (socket : Bool) : Option Route → State
  | some route =>
    { s with
      threads := s.threads ++ [{ socket := socket, ID := false, todo := CServer.runNode route }]
      loop := .created (some s.threads.length) }
  | none => { s with loop := .created none }

/-- A step of thread `n`; `socket` is what its package has. -/
def nodeStep (s : State) (n : Nat) (socket : Bool) : NodeStep → State
  | .newNode => if socket then s else { s with undefined := true }
  | .pushNode => { s with Nodes := s.Nodes ++ [n] }
  | .removeNode => { s with Nodes := s.Nodes.erase n }
  | .countDown => { s with ThreadCount := s.ThreadCount - 1 }
  | .log | .getEndpoint | .callback | .getStaticEndpoint | .writeResponse _ => s

def thread (s : State) (n : Nat) : State :=
  match s.threads[n]? with
  | some { socket, ID, todo := step :: rest } =>
    { s.nodeStep n socket step with threads := s.threads.set n { socket, ID, todo := rest } }
  | _ => s

def next (s : State) : Action → State
  | .stop => s.stop
  | .loop => s.loopNext
  | .accept socket => s.accept socket
  | .create route =>
    match s.loop with
    | .creating socket => s.create socket route
    | _ => s
  | .thread n => s.thread n

/-- Nothing is promised after a null socket has been used. A `pid_t` has 32 bits, so the
kernel never runs 2^32 threads of a process. -/
def Allowed (s : State) (a : Action) : Prop :=
  s.undefined = false ∧
  match a with
  | .stop => True
  | .loop => s.loop ≠ .accepting ∧ (∀ socket, s.loop ≠ .creating socket) ∧ s.loop ≠ .returned
  | .accept _ => s.loop = .accepting
  | .create route => (∃ socket, s.loop = .creating socket) ∧
      (route.isSome → s.served + 1 < 2 ^ 32)
  | .thread n => ∃ t, s.threads[n]? = some t ∧ t.ID = true ∧ t.todo ≠ []

def Step (s : State) (a : Action) (t : State) : Prop := s.Allowed a ∧ t = s.next a

end State

end Solusek.Server
