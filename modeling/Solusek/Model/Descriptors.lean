import Solusek.Model.Cxx

/-!
# Socket descriptors

The life of a connection's descriptor: `::accept` in `CNetHandlerSocket::accept`, the exit
path of `CNode::run`, and `~CNetHandlerSocket`. The kernel's table maps each descriptor
number to the open file it names; open files are numbered in the order they are made.
-/

namespace Solusek.Descriptors

/-- The calls the socket class makes on its descriptor. -/
inductive Syscall where
  | shutdown
  | close
  deriving DecidableEq, Repr

namespace CNetHandlerSocket

def close : List Syscall := [.shutdown, .close]

/-- `~CNetHandlerSocket`. `cleanupSSL` makes no call on the descriptor. -/
def destructor : List Syscall := close

end CNetHandlerSocket

/-- `Socket->close(); delete Socket;` at the end of `CNode::run`. `CServer::run` does the same
to a connection it accepts after `stop()`. -/
def CNode.exitPath : List Syscall := CNetHandlerSocket.close ++ CNetHandlerSocket.destructor

/-- The socket of an accepted connection. -/
structure Socket where
  SID : Int
  /-- The open file `SID` named when the socket was constructed. -/
  own : Nat
  /-- The calls still to be made once the connection is being given up. -/
  todo : Option (List Syscall)
  deriving DecidableEq, Repr

structure State where
  table : Int → Option Nat
  files : Nat
  /-- The socket of each connection, by the open file `::accept` returned for it. -/
  sockets : Nat → Option Socket
  /-- The open files closed so far. -/
  closed : List Nat

inductive Action where
  /-- `::accept` returns `sid`; `sock` is what `socket()` returns if the constructor calls it. -/
  | accept (sid sock : Int) (refused : Bool)
  /-- The node of connection `c` reaches its exit path. -/
  | finish (c : Nat)
  /-- The thread that gives up connection `c` makes its next call. -/
  | call (c : Nat)
  deriving DecidableEq, Repr

namespace State

def new : State :=
  { table := fun _ => none, files := 0, sockets := fun _ => none, closed := [] }

/-- `CNetHandlerSocket::accept` once `::accept` has returned `sid`. A refused connection is
closed at once. The constructor takes the number 0 for "no descriptor" and makes a new one. -/
def accept (s : State) (sid sock : Int) (refused : Bool) : State :=
  let table := Function.update s.table sid (some s.files)
  if refused then
    { s with
      table := table
      files := s.files + 1
      sockets := Function.update s.sockets s.files
        (some { SID := sid, own := s.files, todo := some [.close] }) }
  else if sid = 0 then
    { s with
      table := Function.update table sock (if sock = -1 then none else some (s.files + 1))
      files := s.files + 2
      sockets := Function.update s.sockets s.files
        (some { SID := sock, own := s.files + 1, todo := none }) }
  else
    { s with
      table := table
      files := s.files + 1
      sockets := Function.update s.sockets s.files
        (some { SID := sid, own := s.files, todo := none }) }

def finish (s : State) (c : Nat) : State :=
  match s.sockets c with
  | some x =>
    { s with sockets := Function.update s.sockets c (some { x with todo := some CNode.exitPath }) }
  | none => s

/-- `shutdown(n, SHUT_RDWR)` leaves the number in use; `::close(n)` frees it. -/
def syscall (s : State) (n : Int) : Syscall → State
  | .shutdown => s
  | .close =>
    match s.table n with
    | some f => { s with table := Function.update s.table n none, closed := f :: s.closed }
    | none => s

def call (s : State) (c : Nat) : State :=
  match s.sockets c with
  | some { SID, own, todo := some (op :: rest) } =>
    { s.syscall SID op with
      sockets := Function.update s.sockets c (some { SID, own, todo := some rest }) }
  | _ => s

def next (s : State) : Action → State
  | .accept sid sock refused => s.accept sid sock refused
  | .finish c => s.finish c
  | .call c => s.call c

/-- The kernel hands out free numbers only, and a thread takes the steps it has to take. -/
def Allowed (s : State) : Action → Prop
  | .accept sid sock refused => 0 ≤ sid ∧ s.table sid = none ∧
      (refused = false → sid = 0 → sock = -1 ∨ (0 < sock ∧ s.table sock = none))
  | .finish c => ∃ x, s.sockets c = some x ∧ x.todo = none
  | .call c => ∃ x op rest, s.sockets c = some x ∧ x.todo = some (op :: rest)

def Step (s : State) (a : Action) (t : State) : Prop := s.Allowed a ∧ t = s.next a

end State

end Solusek.Descriptors
