import Solusek.Lib.Runs
import Solusek.Model.Database

/-!
# Leases on pooled connections

`open()` gives out an instance until its holder calls `dispose()`. A new instance is marked
`Used` by its constructor, but `open()` never calls `putInUse` on an instance it takes back
out of the pool. As long as it has no such instance to take, leases are exclusive.
-/

namespace Solusek.Database

open Transition

/-- The pool, and one entry in `holders` for each `open()` whose holder has not disposed yet. -/
structure Pool where
  db : CDatabase
  holders : List Nat

/-- The calls of a run, with the readings of `time(0)` each one makes. -/
inductive Op where
  | setConnectionString (cs : Str)
  | openInstance (now : Int) (connected : Bool)
  | dispose (id : Nat)
  | pass (now : Nat → Int)

namespace Pool

def new : Pool := { db := CDatabase.new, holders := [] }

/-- The instance an operation returns to its caller. -/
def returned (s : Pool) : Op → Option Nat
  | .openInstance now connected => (s.db.open now connected).1.toOption
  | _ => none

/-- The instances an operation deletes. -/
def deleted (s : Pool) : Op → List Nat
  | .pass now => (s.db.poolThread now).2
  | _ => []

def next (s : Pool) : Op → Pool
  | .setConnectionString cs => { s with db := s.db.setConnectionString cs }
  | .openInstance now connected =>
    { db := (s.db.open now connected).2
      holders := (s.returned (.openInstance now connected)).toList ++ s.holders }
  | .dispose id => { db := s.db.disposeInstance id, holders := s.holders.erase id }
  | .pass now => { s with db := (s.db.poolThread now).1 }

/-- Only its holder disposes an instance. -/
def Allowed (s : Pool) : Op → Prop
  | .dispose id => id ∈ s.holders
  | _ => True

def Step (s : Pool) (op : Op) (t : Pool) : Prop := s.Allowed op ∧ t = s.next op

/-- The operation neither returns nor deletes an instance that someone holds. -/
def Exclusive (s : Pool) (op : Op) : Prop :=
  (∀ id, s.returned op = some id → id ∉ s.holders) ∧ ∀ id ∈ s.deleted op, id ∉ s.holders

/-- `open()` finds no unused instance to hand out again. -/
def NoReuse (s : Pool) : Op → Prop
  | .openInstance _ _ => s.db.getUnusedInstance s.db.ConnectionString = none
  | _ => True

end Pool

/-! ### What one operation does -/

theorem poolPass_eq (e : Int) (now : Nat → Int) (is : List CDatabaseInstance) :
    CDatabase.poolPass e now is =
      (is.filter (fun i => !CDatabase.expired e (now i.ID) i),
        (is.filter (fun i => CDatabase.expired e (now i.ID) i)).map (·.ID)) := by
  induction is with
  | nil => rfl
  | cons i rest ih =>
    simp only [CDatabase.poolPass, ih, CDatabaseInstance.getID, List.filter_cons]
    split <;> rename_i h <;> simp [h]

theorem expired_unused {e now : Int} {i : CDatabaseInstance}
    (h : CDatabase.expired e now i = true) : i.Used = false := by
  simp only [CDatabase.expired, CDatabaseInstance.inUse, Bool.and_eq_true] at h
  simpa using h.1

/-- Handing an instance out again changes nothing in the pool: it stays marked unused. -/
theorem open_reuse {db : CDatabase} {i : CDatabaseInstance} (now : Int) (connected : Bool)
    (found : db.getUnusedInstance db.ConnectionString = some i) :
    db.open now connected = (.ok i.ID, db) := by
  simp [CDatabase.open, found, CDatabaseInstance.getID]

theorem new_connected (n : Nat) (now : Int) (cs : Str) :
    CDatabaseInstance.new n now cs true =
      { ID := n, Connected := true, Used := true, ConnectionString := cs, T := now } := by
  simp [CDatabaseInstance.new]

theorem open_fresh {db : CDatabase} (now : Int) (connected : Bool)
    (absent : db.getUnusedInstance db.ConnectionString = none) :
    db.open now connected =
      if connected then
        (.ok db.Counter, { db with
          Counter := db.Counter + 1
          Instances := db.Instances ++
            [CDatabaseInstance.new db.Counter now db.ConnectionString true] })
      else (.error (.runtimeError "Failed to open connection to database.".toList),
        { db with Counter := db.Counter + 1 }) := by
  cases connected <;>
    simp [CDatabase.open, absent, CDatabaseInstance.new, CDatabaseInstance.isConnected,
      CDatabaseInstance.getID]

theorem disposeInstance_ids (db : CDatabase) (id : Nat) :
    (db.disposeInstance id).Instances.map (·.ID) = db.Instances.map (·.ID) := by
  simp only [CDatabase.disposeInstance, List.map_map]
  apply List.map_congr_left
  intro i _
  by_cases same : i.ID = id <;>
    simp [CDatabaseInstance.getID, CDatabaseInstance.dispose, same]

/-! ### The lease invariant -/

/-- Every held instance is in the pool, marked used, and held once. -/
structure Leased (s : Pool) : Prop where
  ids : (s.db.Instances.map (·.ID)).Nodup
  below : ∀ i ∈ s.db.Instances, i.ID < s.db.Counter
  once : s.holders.Nodup
  used : ∀ id ∈ s.holders, ∃ i ∈ s.db.Instances, i.ID = id ∧ i.Used = true

theorem new_leased : Leased Pool.new := by
  constructor <;> simp [Pool.new, CDatabase.new]

theorem Leased.unused_not_held {s : Pool} (leased : Leased s) {i : CDatabaseInstance}
    (member : i ∈ s.db.Instances) (unused : i.Used = false) : i.ID ∉ s.holders := by
  intro held
  obtain ⟨j, present, same, used⟩ := leased.used _ held
  have equal : j = i := List.inj_on_of_nodup_map leased.ids present member same
  rw [equal, unused] at used
  exact Bool.false_ne_true used

theorem exclusive_of_leased {s : Pool} (leased : Leased s) (op : Op) (fresh : s.NoReuse op) :
    s.Exclusive op := by
  constructor
  · intro id result held
    cases op with
    | openInstance now connected =>
      simp only [Pool.returned, open_fresh now connected fresh] at result
      cases connected with
      | false => simp [Except.toOption] at result
      | true =>
        have same : s.db.Counter = id := by simpa [Except.toOption] using result
        obtain ⟨i, present, equal, _⟩ := leased.used _ held
        have bound := leased.below i present
        omega
    | _ => simp [Pool.returned] at result
  · intro id gone
    cases op with
    | pass now =>
      simp only [Pool.deleted, CDatabase.poolThread, poolPass_eq, List.mem_map,
        List.mem_filter] at gone
      obtain ⟨i, ⟨present, old⟩, rfl⟩ := gone
      exact leased.unused_not_held present (expired_unused old)
    | _ => simp [Pool.deleted] at gone

theorem open_leased {s : Pool} (leased : Leased s) (now : Int) (connected : Bool)
    (fresh : s.NoReuse (.openInstance now connected)) :
    Leased (s.next (.openInstance now connected)) := by
  have absent : s.db.getUnusedInstance s.db.ConnectionString = none := fresh
  have apart := (exclusive_of_leased leased _ fresh).1
  obtain ⟨ids, below, once, used⟩ := leased
  cases connected with
  | false =>
    simp only [Pool.next, Pool.returned, open_fresh _ _ absent, Except.toOption]
    exact ⟨ids, fun i member => Nat.lt_succ_of_lt (below i member), once, used⟩
  | true =>
    have result : s.returned (.openInstance now true) = some s.db.Counter := by
      simp [Pool.returned, open_fresh _ _ absent, Except.toOption]
    have unheld := apart _ result
    simp only [Pool.next, result, open_fresh _ _ absent]
    refine ⟨?_, ?_, ?_, ?_⟩
    · simp only [if_true, new_connected, List.map_append, List.map_cons, List.map_nil]
      refine List.nodup_append.mpr ⟨ids, by simp, ?_⟩
      intro a old b single same
      obtain ⟨i, member, rfl⟩ := List.mem_map.mp old
      have bound := below i member
      have equal : b = s.db.Counter := by simpa using single
      omega
    · intro i member
      rcases List.mem_append.mp member with old | made
      · exact Nat.lt_succ_of_lt (below i old)
      · have equal : i = _ := List.mem_singleton.mp made
        simp [equal, new_connected]
    · exact List.nodup_cons.mpr ⟨unheld, once⟩
    · intro id member
      rcases List.mem_cons.mp member with rfl | old
      · exact ⟨_, List.mem_append.mpr (Or.inr (List.mem_singleton.mpr rfl)),
          by simp [new_connected], by simp [new_connected]⟩
      · obtain ⟨i, present, same⟩ := used id old
        exact ⟨i, List.mem_append.mpr (Or.inl present), same⟩

theorem dispose_leased {s : Pool} (leased : Leased s) (id : Nat) :
    Leased (s.next (.dispose id)) := by
  obtain ⟨ids, below, once, used⟩ := leased
  refine ⟨?_, ?_, once.erase id, ?_⟩
  · rw [Pool.next, disposeInstance_ids]
    exact ids
  · intro i member
    simp only [Pool.next, CDatabase.disposeInstance, List.mem_map] at member ⊢
    obtain ⟨j, present, rfl⟩ := member
    have bound := below j present
    split <;> exact bound
  · intro other member
    obtain ⟨different, held⟩ := (once.mem_erase_iff).mp member
    obtain ⟨i, present, rfl, inUse⟩ := used other held
    refine ⟨i, ?_, rfl, inUse⟩
    simp only [Pool.next, CDatabase.disposeInstance, List.mem_map]
    exact ⟨i, present, if_neg different⟩

theorem pass_leased {s : Pool} (leased : Leased s) (now : Nat → Int) :
    Leased (s.next (.pass now)) := by
  obtain ⟨ids, below, once, used⟩ := leased
  simp only [Pool.next, CDatabase.poolThread, poolPass_eq]
  refine ⟨ids.sublist (List.filter_sublist.map _), ?_, once, ?_⟩
  · intro i member
    exact below i (List.mem_filter.mp member).1
  · intro id held
    obtain ⟨i, present, same, inUse⟩ := used id held
    refine ⟨i, List.mem_filter.mpr ⟨present, ?_⟩, same, inUse⟩
    simp [CDatabase.expired, CDatabaseInstance.inUse, inUse]

theorem step_leased {s t : Pool} {op : Op} (leased : Leased s)
    (taken : Guarded Pool.NoReuse Pool.Step s op t) : Leased t := by
  obtain ⟨fresh, _, rfl⟩ := taken
  cases op with
  | setConnectionString cs => exact ⟨leased.ids, leased.below, leased.once, leased.used⟩
  | openInstance now connected => exact open_leased leased now connected fresh
  | dispose id => exact dispose_leased leased id
  | pass now => exact pass_leased leased now

/-! ### Exclusive leases -/

/-- The second `open()` after a reuse returns the same instance again. -/
theorem reuse_shared {s : Pool} {i : CDatabaseInstance} (now later : Int)
    (connected connected' : Bool)
    (found : s.db.getUnusedInstance s.db.ConnectionString = some i) :
    ¬ (s.next (.openInstance now connected)).Exclusive (.openInstance later connected') := by
  have first := open_reuse now connected found
  have result : s.returned (.openInstance now connected) = some i.ID := by
    simp [Pool.returned, first, Except.toOption]
  intro exclusive
  refine exclusive.1 i.ID ?_ ?_
  · simp only [Pool.returned, Pool.next, first, open_reuse later connected' found]
    rfl
  · simp [Pool.next, result]

/-- In a run in which `open()` never has an unused instance to hand out again, no operation
returns or deletes a held instance; and the first reuse already lets two holders share. -/
theorem lease_exclusive {ops : List Op} {s : Pool}
    (run : Runs (Guarded Pool.NoReuse Pool.Step) Pool.new ops s) :
    (∀ op, s.NoReuse op → s.Exclusive op) ∧
    (s.holders.Nodup ∧ ∀ id ∈ s.holders, ∃ i ∈ s.db.Instances, i.ID = id) ∧
    ∀ (now later : Int) (connected connected' : Bool),
      ¬ s.NoReuse (.openInstance now connected) →
        ¬ (s.next (.openInstance now connected)).Exclusive (.openInstance later connected') := by
  have leased : Leased s := run.invariant new_leased step_leased
  refine ⟨exclusive_of_leased leased, ⟨leased.once, ?_⟩, ?_⟩
  · intro id held
    obtain ⟨i, present, same, _⟩ := leased.used id held
    exact ⟨i, present, same⟩
  · intro now later connected connected' reuse
    obtain ⟨i, found⟩ := Option.ne_none_iff_exists'.mp reuse
    exact reuse_shared now later connected connected' found

/-- Two holders at once, each with an instance of its own. -/
theorem lease_exclusive_two_holders :
    ((Pool.new.next (.openInstance 0 true)).next (.openInstance 1 true)).holders.Nodup := by
  have first : Guarded Pool.NoReuse Pool.Step Pool.new (.openInstance 0 true)
      (Pool.new.next (.openInstance 0 true)) :=
    ⟨(by decide : CDatabase.new.getUnusedInstance [] = none), trivial, rfl⟩
  have second : Guarded Pool.NoReuse Pool.Step (Pool.new.next (.openInstance 0 true))
      (.openInstance 1 true) ((Pool.new.next (.openInstance 0 true)).next (.openInstance 1 true)) :=
    ⟨(by decide : CDatabase.getUnusedInstance (Pool.new.next (.openInstance 0 true)).db [] = none),
      trivial, rfl⟩
  exact (lease_exclusive (Runs.snoc (Runs.single first) second)).2.1.1

/-- An instance disposed once is leased twice at a time. -/
theorem lease_shared :
    ¬ ∀ (ops : List Op) (s : Pool) (op : Op), Runs Pool.Step Pool.new ops s → s.Allowed op →
      s.Exclusive op := by
  intro claim
  have opened : Pool.Step Pool.new (.openInstance 0 true) (Pool.new.next (.openInstance 0 true)) :=
    ⟨trivial, rfl⟩
  have disposed := Runs.snoc (Runs.single opened)
    (show Pool.Step _ (.dispose 1) _ from ⟨(by decide : 1 ∈ [1]), rfl⟩)
  have again := Runs.snoc disposed (show Pool.Step _ (.openInstance 5 true) _ from ⟨trivial, rfl⟩)
  have exclusive := claim _ _ (.openInstance 6 true) again trivial
  exact exclusive.1 1 (by decide) (by decide)

end Solusek.Database
