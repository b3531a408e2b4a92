import Solusek.Model.Transaction

/-!
# The flag `CTransaction::Lock`

Each call of a transaction into its backend waits until `Lock` is false, sets it, makes the
call and clears it again. An exception leaves between the last two. `throws k` says whether
the `k`-th call of one operation into the backend throws. The flag is static, so it does not
matter on which transaction an operation is called.
-/

namespace Solusek.Lock

/-- How an operation ends; `waiting`: it does not, as nothing will clear `Lock`. -/
inductive Exit where
  | returned
  | thrown
  | waiting
  deriving DecidableEq, Repr

/-- `while(Lock) usleep(1); Lock = true;` one call into the backend, `Lock = false;`. -/
def locked (throws Lock : Bool) : Exit × Bool :=
  if Lock then (.waiting, Lock) else if throws then (.thrown, true) else (.returned, false)

/-- What follows is reached only by a return. -/
def andThen (r : Exit × Bool) (next : Bool → Exit × Bool) : Exit × Bool :=
  match r with
  | (.returned, Lock) => next Lock
  | ended => ended

namespace CTransaction

def esc (throws Lock : Bool) : Exit × Bool := locked throws Lock

/-- The loops that call `esc` on every value of a map; `k` calls have been made before. -/
def escEach (throws : Nat → Bool) : Nat → List (Str × Str) → Bool → Exit × Bool
  | _, [], Lock => (.returned, Lock)
  | k, _ :: rest, Lock => andThen (esc (throws k) Lock) (escEach throws (k + 1) rest)

variable (throws : Nat → Bool)

def exec (Lock : Bool) : Exit × Bool := locked (throws 0) Lock

def commit (Lock : Bool) : Exit × Bool := locked (throws 0) Lock

/-- The map's values are escaped one by one, then the statement is run. -/
def escapedStatement (vars : StdMap) (Lock : Bool) : Exit × Bool :=
  andThen (escEach throws 0 vars.entries Lock) (locked (throws vars.entries.length))

def insert (vars : StdMap) : Bool → Exit × Bool := escapedStatement throws vars

/-- Only the second map is escaped. -/
def update (_find vars : StdMap) : Bool → Exit × Bool := escapedStatement throws vars

def selectOne (vars : StdMap) : Bool → Exit × Bool := escapedStatement throws vars

def selectCustom (Lock : Bool) : Exit × Bool := locked (throws 0) Lock

def select (vars : StdMap) : Bool → Exit × Bool := escapedStatement throws vars

end CTransaction

open Transaction.CTransaction (Op)

inductive Call where
  | op (o : Op)
  | commit
  | esc

namespace Call

/-- The map whose values the operation escapes. -/
def vars : Call → List (Str × Str)
  | .op (.insert _ vars) | .op (.update _ _ vars) | .op (.selectOne _ _ vars _)
  | .op (.select _ _ vars _ _) => vars.entries
  | _ => []

def run (throws : Nat → Bool) : Call → Bool → Exit × Bool
  | .op (.exec _) => CTransaction.exec throws
  | .op (.insert _ vars) => CTransaction.insert throws vars
  | .op (.update _ find vars) => CTransaction.update throws find vars
  | .op (.selectOne _ _ vars _) => CTransaction.selectOne throws vars
  | .op (.selectCustom _) => CTransaction.selectCustom throws
  | .op (.select _ _ vars _ _) => CTransaction.select throws vars
  | .commit => CTransaction.commit throws
  | .esc => CTransaction.esc (throws 0)

end Call

/-- An operation, and which of its calls into the backend throw. -/
structure Action where
  call : Call
  throws : Nat → Bool

def Step (Lock : Bool) (a : Action) (Lock' : Bool) : Prop :=
  ∃ exit, a.call.run a.throws Lock = (exit, Lock') ∧ exit ≠ .waiting

end Solusek.Lock
