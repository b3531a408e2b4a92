import Solusek.Model.Cxx

/-!
# Handles and who deletes them

A handle deletes itself in `dispose()`; the transaction that made it also keeps it in
`Handles`, and deletes all of these in `cleanup()`. Handles and resources are numbered in the
order they are made. What a handle carries is left out. `throws` says whether the call into
the backend throws.
-/

namespace Solusek.Ownership

structure State where
  /-- The member `RS` of each handle made so far. -/
  RS : List Nat
  resources : Nat
  Handles : List Nat
  deletedHandles : List Nat
  deletedResources : List Nat
  /-- The transaction has been deleted. -/
  gone : Bool
  deriving DecidableEq, Repr

namespace State

def new : State :=
  { RS := [], resources := 0, Handles := [], deletedHandles := [], deletedResources := [],
    gone := false }

def newResource (s : State) : State := { s with resources := s.resources + 1 }

/-- `new CDatabaseHandle(rs)` and `Handles.push_back(r)`. -/
def newHandle (s : State) (rs : Nat) : State :=
  { s with RS := s.RS ++ [rs], Handles := s.Handles ++ [s.RS.length] }

def resourceOf (s : State) (h : Nat) : Nat := s.RS.getD h 0

/-- `delete` of a handle: `~CDatabaseHandle` deletes `RS`. -/
def delete (s : State) (h : Nat) : State :=
  { s with
    deletedHandles := s.deletedHandles ++ [h]
    deletedResources := s.deletedResources ++ [s.resourceOf h] }

end State

namespace CDatabaseHandle

def dispose (s : State) (h : Nat) : State := s.delete h

def disposeAndGetError (s : State) (h : Nat) : State := dispose s h

def disposeAndGetID (s : State) (h : Nat) : State := dispose s h

end CDatabaseHandle

namespace CTransaction

/-- `T->insert` makes the resource, if it does not throw. -/
def insert (s : State) (throws : Bool) : State :=
  if throws then s else s.newResource.newHandle s.resources

def selectOne (s : State) (throws : Bool) : State :=
  if throws then s else s.newResource.newHandle s.resources

/-- The resource is made first: it stays behind if `T->query` throws. -/
def selectCustom (s : State) (throws : Bool) : State :=
  if throws then s.newResource else s.newResource.newHandle s.resources

def select (s : State) (throws : Bool) : State :=
  if throws then s.newResource else s.newResource.newHandle s.resources

def cleanup (s : State) : State := { s.Handles.foldl State.delete s with Handles := [] }

/-- `delete this`. -/
def dispose (s : State) : State := { cleanup s with gone := true }

end CTransaction

inductive Op where
  | insert (throws : Bool)
  | selectOne (throws : Bool)
  | selectCustom (throws : Bool)
  | select (throws : Bool)
  | dispose (h : Nat)
  | disposeAndGetError (h : Nat)
  | disposeAndGetID (h : Nat)
  | cleanup
  | disposeTransaction
  deriving DecidableEq, Repr

/-- The handle an operation disposes. -/
def Op.disposed : Op → Option Nat
  | .dispose h | .disposeAndGetError h | .disposeAndGetID h => some h
  | _ => none

namespace State

def next (s : State) : Op → State
  | .insert throws => CTransaction.insert s throws
  | .selectOne throws => CTransaction.selectOne s throws
  | .selectCustom throws => CTransaction.selectCustom s throws
  | .select throws => CTransaction.select s throws
  | .dispose h => CDatabaseHandle.dispose s h
  | .disposeAndGetError h => CDatabaseHandle.disposeAndGetError s h
  | .disposeAndGetID h => CDatabaseHandle.disposeAndGetID s h
  | .cleanup => CTransaction.cleanup s
  | .disposeTransaction => CTransaction.dispose s

/-- The caller disposes a handle it was given, once and before any `cleanup()`, and is done
with the transaction and its handles after disposing the transaction. -/
def Allowed (s : State) (op : Op) : Prop :=
  s.gone = false ∧ ∀ h, op.disposed = some h → h < s.RS.length ∧ h ∉ s.deletedHandles

def Step (s : State) (op : Op) (t : State) : Prop := s.Allowed op ∧ t = s.next op

end State

end Solusek.Ownership
