import Solusek.Model.Server

/-!
# Changes in more than one access

`ThreadCount++` and `ThreadCount--` read the counter and then write it, and `push_back` and
`erase` make many accesses to `Nodes`; the loop and the node threads do so side by side, and
nothing keeps them apart. Here each of these changes begins in one step and ends in another.
-/

namespace Solusek.Server.Parted

inductive Variable where
  | ThreadCount
  | Nodes
  deriving DecidableEq, Repr

/-- The accept loop, or the thread of the number. -/
inductive Actor where
  | loop
  | thread (n : Nat)
  deriving DecidableEq, Repr

def Actor.action : Actor → Action
  | loop => .loop
  | thread n => .thread n

/-- What the next step of the action changes. -/
def changed (s : Server.State) : Action → Option Variable
  | .loop =>
    match s.loop with
    | .accepted _ => some .ThreadCount
    | _ => none
  | .thread n =>
    match s.threads[n]?.bind (·.todo.head?) with
    | some .pushNode | some .removeNode => some .Nodes
    | some .countDown => some .ThreadCount
    | _ => none
  | .stop | .accept _ | .create _ => none

/-- A change that has begun: whose it is, and `ThreadCount` as it was then. -/
structure Change where
  actor : Actor
  target : Variable
  read : UInt32
  deriving DecidableEq, Repr

structure State where
  server : Server.State
  /-- The changes that have begun and not ended. -/
  changes : List Change

inductive Move where
  /-- A step that is one access. -/
  | whole (a : Action)
  | begins (actor : Actor)
  | ends (change : Change)

namespace State

def start (limit : UInt32) : State := { server := .start limit, changes := [] }

/-- `Nodes` is being changed. -/
def nodesChange (changes : List Change) : Bool := changes.any fun c => c.target == .Nodes

/-- What the end of a change writes. Nothing is promised where `Nodes` is changed, or its size is
read, while another thread changes it. -/
def written (s : State) (change : Change) : Server.State :=
  match change.target with
  | .ThreadCount => { s.server with ThreadCount := change.read }.next change.actor.action
  | .Nodes =>
    if nodesChange (s.changes.erase change) then { s.server with undefined := true }
    else s.server.next change.actor.action

def readsNodes (s : State) : Action → Bool
  | .loop => s.server.loop == .draining
  | _ => false

def next (s : State) : Move → State
  | .whole a =>
    if s.readsNodes a && nodesChange s.changes then
      { s with server := { s.server with undefined := true } }
    else { s with server := s.server.next a }
  | .begins actor =>
    match changed s.server actor.action with
    | some target =>
      { s with changes := s.changes ++ [⟨actor, target, s.server.ThreadCount⟩] }
    | none => s
  | .ends change => { server := s.written change, changes := s.changes.erase change }

def Allowed (s : State) : Move → Prop
  | .whole a => s.server.Allowed a ∧ changed s.server a = none
  | .begins actor => s.server.Allowed actor.action ∧
      (changed s.server actor.action).isSome ∧ ∀ c ∈ s.changes, c.actor ≠ actor
  | .ends change => s.server.Allowed change.actor.action ∧
      changed s.server change.actor.action = some change.target ∧ change ∈ s.changes

def Step (s : State) (m : Move) (t : State) : Prop := s.Allowed m ∧ t = s.next m

end State

end Solusek.Server.Parted
