import Solusek.Model.Lock

/-!
# The spin locks `Hold` and `Lock`

Threads that run `CDatabase::open`, `closeAll`, the reaper and the operations of `CTransaction`.
One step is one read or write of a flag, one access to `Instances`, one call on `T`, or one
connection attempt. `Running` stays true: only the destructor of `CDatabase` clears it. What a
thread reads of an instance may be changed by others at any time, so each answer is open.
-/

namespace Solusek.SpinLocks

inductive Flag where
  | Hold
  | Lock
  deriving DecidableEq, Repr

/-- What a thread does under a flag. -/
inductive Call where
  | open
  | closeAll
  /-- One pass of `_poolThread`. -/
  | poolThread
  /-- A call on `T`; the operation makes `left` more after it. -/
  | onT (left : Nat)
  deriving DecidableEq, Repr

def Call.flag : Call → Flag
  | .open | .closeAll | .poolThread => .Hold
  | .onT _ => .Lock

/-- The access to `Instances` that comes next; `it` is the place of the iterator. -/
inductive Access where
  /-- `Instances.begin()` -/
  | begin
  /-- `it != Instances.end()` -/
  | bound (it : Nat)
  /-- `!(*it)->inUse()` -/
  | unused (it : Nat)
  /-- The second test on `*it`: its connection string, or its age. -/
  | fits (it : Nat)
  /-- `return (*it)`, or `i = *it` before `delete i`. -/
  | take (it : Nat)
  /-- `Instances.erase(it)` -/
  | erase (it : Nat)
  /-- `!Instances.empty()` -/
  | nonempty
  /-- `delete Instances.back()` -/
  | back
  /-- `Instances.pop_back()` -/
  | popBack
  deriving DecidableEq, Repr

/-- Where a thread stands: its next step. -/
inductive PC where
  | outside
  /-- `while(flag)` -/
  | testing (c : Call)
  /-- `flag = true` -/
  | setting (c : Call)
  | inside (c : Call) (a : Access)
  /-- The call on `T`. -/
  | calling (left : Nat)
  /-- `flag = false`; `found`: `getUnusedInstance` has found one. -/
  | clearing (c : Call) (found : Bool)
  /-- `new CDatabaseInstance` -/
  | connecting
  /-- `Instances.push_back(di)` -/
  | pushing (di : Nat)
  deriving DecidableEq, Repr

inductive Move where
  | open
  | closeAll
  | operation (op : Lock.Call)
  | test
  | set
  | access (answer : Bool)
  | callT (throws : Bool)
  | clear
  /-- The new instance, or none where the connection fails. -/
  | connect (di : Option Nat)
  | push

/-- Thread `t` makes its next step. -/
structure Action where
  t : Nat
  move : Move

structure State where
  flag : Flag → Bool
  Instances : List Nat
  pc : Nat → PC
  /-- The threads that have set a flag and not cleared it since. -/
  holders : Flag → List Nat

/-- The first step after the flag is set. -/
def Call.enter : Call → PC
  | .open => .inside .open .begin
  | .poolThread => .inside .poolThread .begin
  | .closeAll => .inside .closeAll .nonempty
  | .onT left => .calling left

/-- What follows once the flag is cleared. -/
def Call.leave : Call → Bool → PC
  | .open, true => .outside
  | .open, false => .connecting
  | .closeAll, _ => .outside
  | .poolThread, _ => .testing .poolThread
  | .onT 0, _ => .outside
  | .onT (left + 1), _ => .testing (.onT left)

/-- An access to `Instances`: what comes next, and what is left in it. -/
def Call.access (c : Call) (Instances : List Nat) (answer : Bool) : Access → PC × List Nat
  | .begin => (.inside c (.bound 0), Instances)
  | .bound it =>
    (if it ≠ Instances.length then .inside c (.unused it) else .clearing c false, Instances)
  | .unused it => (.inside c (if answer then .fits it else .bound (it + 1)), Instances)
  | .fits it => (.inside c (if answer then .take it else .bound (it + 1)), Instances)
  | .take it => (if c = .open then .clearing c true else .inside c (.erase it), Instances)
  | .erase it => (.inside c (.bound it), Instances.eraseIdx it)
  | .nonempty => (if Instances = [] then .clearing c false else .inside c .back, Instances)
  | .back => (.inside c .popBack, Instances)
  | .popBack => (.inside c .nonempty, Instances.dropLast)

namespace State

/-- The reaper is thread 0. -/
def start : State where
  flag _ := false
  Instances := []
  pc t := if t = 0 then .testing .poolThread else .outside
  holders _ := []

def goto (s : State) (t : Nat) (pc : PC) : State := { s with pc := Function.update s.pc t pc }

def setFlag (s : State) (t : Nat) (f : Flag) : State :=
  { s with
    flag := Function.update s.flag f true
    holders := Function.update s.holders f (t :: s.holders f) }

def clearFlag (s : State) (t : Nat) (f : Flag) : State :=
  { s with
    flag := Function.update s.flag f false
    holders := Function.update s.holders f ((s.holders f).erase t) }

def next (s : State) (a : Action) : Option State :=
  match s.pc a.t, a.move with
  | .outside, .open => some (s.goto a.t (.testing .open))
  | .outside, .closeAll => some (s.goto a.t (.testing .closeAll))
  -- an operation escapes the values of its map one by one before its own call
  | .outside, .operation op => some (s.goto a.t (.testing (.onT op.vars.length)))
  | .testing c, .test => some (if s.flag c.flag then s else s.goto a.t (.setting c))
  | .setting c, .set => some ((s.setFlag a.t c.flag).goto a.t c.enter)
  | .inside c here, .access answer =>
    let (pc, Instances) := c.access s.Instances answer here
    some { s.goto a.t pc with Instances }
  -- an exception leaves the flag set
  | .calling left, .callT throws =>
    some (s.goto a.t (if throws then .outside else .clearing (.onT left) false))
  | .clearing c found, .clear => some ((s.clearFlag a.t c.flag).goto a.t (c.leave found))
  | .connecting, .connect (some di) => some (s.goto a.t (.pushing di))
  | .connecting, .connect none => some (s.goto a.t .outside)
  | .pushing di, .push => some { s.goto a.t .outside with Instances := s.Instances ++ [di] }
  | _, _ => none

def Step (s : State) (a : Action) (s' : State) : Prop := s.next a = some s'

end State

end Solusek.SpinLocks
