import Solusek.Proofs.PoolLease

/-!
# The pool over any sequence of calls

An instance is drawn from `Counter` once, sits in the pool at most once, and is deleted at most
once, by the reaper or by `closeAll`.
-/

namespace Solusek.Database

open Transition

/-- The pool, and every deletion so far. -/
structure Record where
  db : CDatabase
  deleted : List Nat

inductive Call where
  | setConnectionString (cs : Str)
  | openInstance (now : Int) (connected : Bool)
  | dispose (id : Nat)
  | pass (now : Nat → Int)
  | closeAll

namespace Record

def new : Record := { db := CDatabase.new, deleted := [] }

def ids (s : Record) : List Nat := s.db.Instances.map (·.ID)

def next (s : Record) : Call → Record
  | .setConnectionString cs => { s with db := s.db.setConnectionString cs }
  | .openInstance now connected => { s with db := (s.db.open now connected).2 }
  | .dispose id => { s with db := s.db.disposeInstance id }
  | .pass now => ⟨(s.db.poolThread now).1, s.deleted ++ (s.db.poolThread now).2⟩
  | .closeAll => ⟨s.db.closeAll.1, s.deleted ++ s.db.closeAll.2⟩

/-- An instance is disposed while it is in the pool. -/
def Allowed (s : Record) : Call → Prop
  | .dispose id => id ∈ s.ids
  | _ => True

def Step (s : Record) (call : Call) (t : Record) : Prop := s.Allowed call ∧ t = s.next call

/-- No instance is in the pool twice, deleted twice, or in the pool and deleted; the next one is
new; and what is in the pool is connected. -/
structure Sound (s : Record) : Prop where
  once : (s.deleted ++ s.ids).Nodup
  drawn : ∀ id ∈ s.deleted ++ s.ids, id < s.db.Counter
  connected : ∀ i ∈ s.db.Instances, i.Connected = true

end Record

/-! ### What one call does -/

theorem poolThread_eq (db : CDatabase) (now : Nat → Int) : db.poolThread now =
    ({ db with Instances := db.Instances.filter fun i =>
        ¬ (i.Used = false ∧ now i.ID - i.T > db.ExpireSeconds) },
      (db.Instances.filter fun i =>
        i.Used = false ∧ now i.ID - i.T > db.ExpireSeconds).map (·.ID)) := by
  have test i : CDatabase.expired db.ExpireSeconds (now i.ID) i =
      decide (i.Used = false ∧ now i.ID - i.T > db.ExpireSeconds) := by
    unfold CDatabase.expired CDatabaseInstance.inUse CDatabaseInstance.getT
    cases i.Used <;> simp
  unfold CDatabase.poolThread
  simp only [poolPass_eq, test, decide_not]

theorem getUnusedInstance_spec {db : CDatabase} {cs : Str} {i : CDatabaseInstance}
    (found : db.getUnusedInstance cs = some i) :
    i ∈ db.Instances ∧ i.Used = false ∧ i.ConnectionString = db.ConnectionString := by
  have test := List.find?_some found
  simp only [CDatabaseInstance.inUse, CDatabaseInstance.getConnectionString, Bool.and_eq_true,
    Bool.not_eq_true', beq_iff_eq] at test
  exact ⟨List.mem_of_find?_eq_some found, test.1, test.2.symm⟩

theorem open_returns (db : CDatabase) (now : Int) (connected : Bool) :
    (∃ e, (db.open now connected).1 = .error e) ∨
    ∃ i ∈ (db.open now connected).2.Instances,
      (db.open now connected).1 = .ok i.ID ∧ i.ConnectionString = db.ConnectionString := by
  cases found : db.getUnusedInstance db.ConnectionString with
  | some i =>
    obtain ⟨member, _, same⟩ := getUnusedInstance_spec found
    rw [open_reuse now connected found]
    exact Or.inr ⟨i, member, rfl, same⟩
  | none =>
    rw [open_fresh now connected found]
    cases connected with
    | false => exact Or.inl ⟨_, rfl⟩
    | true =>
      refine Or.inr ⟨_, List.mem_append_right _ (List.mem_singleton.mpr rfl), ?_, ?_⟩
      · rw [new_connected]
        rfl
      · rw [new_connected]

/-! ### The invariant -/

namespace Record

variable {s : Record}

theorem new_sound : Sound new := by
  constructor <;> simp [new, ids, CDatabase.new]

theorem Sound.moved (sound : Sound s) {t : Record} {gone : List Nat}
    (counter : t.db.Counter = s.db.Counter) (deleted : t.deleted = s.deleted ++ gone)
    (moved : (gone ++ t.ids).Perm s.ids)
    (connected : ∀ i ∈ t.db.Instances, i.Connected = true) : Sound t := by
  have same : (t.deleted ++ t.ids).Perm (s.deleted ++ s.ids) := by
    rw [deleted, List.append_assoc]
    exact moved.append_left s.deleted
  refine ⟨same.nodup_iff.mpr sound.once, fun id member => ?_, connected⟩
  rw [counter]
  exact sound.drawn id (same.mem_iff.mp member)

theorem open_sound (sound : Sound s) (now : Int) (connected : Bool) :
    Sound (s.next (.openInstance now connected)) := by
  cases found : s.db.getUnusedInstance s.db.ConnectionString with
  | some i =>
    have same : s.next (.openInstance now connected) = s := by
      simp only [next, open_reuse now connected found]
    rw [same]
    exact sound
  | none =>
    have drawn id (member : id ∈ s.deleted ++ s.ids) : id < s.db.Counter + 1 :=
      Nat.lt_succ_of_lt (sound.drawn id member)
    simp only [next, open_fresh now connected found]
    cases connected with
    | false => exact ⟨sound.once, drawn, sound.connected⟩
    | true =>
      simp only [if_true, new_connected]
      have grown : (s.deleted ++ (s.db.Instances ++ [CDatabaseInstance.mk s.db.Counter true true
          s.db.ConnectionString now]).map (·.ID)) = (s.deleted ++ s.ids) ++ [s.db.Counter] := by
        simp [ids]
      refine ⟨?_, ?_, ?_⟩
      · unfold ids
        rw [grown]
        refine List.nodup_append.mpr ⟨sound.once, List.nodup_singleton _, ?_⟩
        intro id old fresh new same
        have bound := sound.drawn id old
        have equal := List.mem_singleton.mp new
        omega
      · unfold ids
        rw [grown]
        intro id member
        rcases List.mem_append.mp member with old | new
        · exact drawn id old
        · exact (List.mem_singleton.mp new) ▸ Nat.lt_succ_self _
      · intro i member
        rcases List.mem_append.mp member with old | new
        · exact sound.connected i old
        · rw [List.mem_singleton.mp new]

theorem dispose_sound (sound : Sound s) (id : Nat) : Sound (s.next (.dispose id)) := by
  refine sound.moved rfl (List.append_nil _).symm ?_ ?_
  · exact List.Perm.of_eq (disposeInstance_ids s.db id)
  · intro i member
    obtain ⟨j, present, rfl⟩ := List.mem_map.mp member
    have connected := sound.connected j present
    split
    · exact connected
    · exact connected

theorem pass_sound (sound : Sound s) (now : Nat → Int) : Sound (s.next (.pass now)) := by
  simp only [next, poolThread_eq]
  refine sound.moved rfl rfl ?_ fun i member => sound.connected i (List.mem_filter.mp member).1
  have split := List.filter_append_perm
    (fun i : CDatabaseInstance => decide (i.Used = false ∧ now i.ID - i.T > s.db.ExpireSeconds))
    s.db.Instances
  have moved := split.map (·.ID)
  rw [List.map_append] at moved
  simpa only [ids, decide_not] using moved

theorem closeAll_sound (sound : Sound s) : Sound (s.next .closeAll) := by
  refine sound.moved rfl rfl ?_ fun i member => absurd member List.not_mem_nil
  simp only [next, CDatabase.closeAll, ids, List.map_nil, List.append_nil]
  exact (List.reverse_perm s.db.Instances).map (·.ID)

theorem step_sound {t : Record} {call : Call} (sound : Sound s) (taken : Step s call t) :
    Sound t := by
  obtain ⟨_, rfl⟩ := taken
  cases call with
  | setConnectionString cs => exact ⟨sound.once, sound.drawn, sound.connected⟩
  | openInstance now connected => exact open_sound sound now connected
  | dispose id => exact dispose_sound sound id
  | pass now => exact pass_sound sound now
  | closeAll => exact closeAll_sound sound

end Record

/-- After any calls: no instance is in the pool twice, or deleted twice, or still in the pool
once deleted; all in the pool are connected; the next `open()` throws or returns one of the pool
with the current connection string; and the next pass of the reaper deletes just the unused ones
that are too old. -/
theorem pool_sound {calls : List Call} {s : Record} (run : Runs Record.Step Record.new calls s) :
    (s.db.Instances.map (·.ID)).Nodup ∧ s.deleted.Nodup ∧
    (∀ i ∈ s.db.Instances, i.ID ∉ s.deleted ∧ i.Connected = true) ∧
    (∀ now connected, (∃ e, (s.db.open now connected).1 = .error e) ∨
      ∃ i ∈ (s.db.open now connected).2.Instances,
        (s.db.open now connected).1 = .ok i.ID ∧ i.ConnectionString = s.db.ConnectionString) ∧
    ∀ now, s.db.poolThread now =
      ({ s.db with Instances := s.db.Instances.filter fun i =>
          ¬ (i.Used = false ∧ now i.ID - i.T > s.db.ExpireSeconds) },
        (s.db.Instances.filter fun i =>
          i.Used = false ∧ now i.ID - i.T > s.db.ExpireSeconds).map (·.ID)) := by
  have sound : s.Sound := run.invariant Record.new_sound Record.step_sound
  obtain ⟨deleted, pooled, apart⟩ := List.nodup_append.mp sound.once
  refine ⟨pooled, deleted, fun i member => ⟨fun gone => ?_, sound.connected i member⟩, ?_, ?_⟩
  · exact apart i.ID gone i.ID (List.mem_map.mpr ⟨i, member, rfl⟩) rfl
  · exact open_returns s.db
  · exact poolThread_eq s.db

/-- An instance disposed, expired, and deleted by the reaper. -/
theorem pool_sound_expired : ∃ s : Record, s.deleted = [1] ∧ s.deleted.Nodup := by
  have opened : Record.Step Record.new (.openInstance 0 true)
      (Record.new.next (.openInstance 0 true)) := ⟨trivial, rfl⟩
  have disposed := Runs.snoc (Runs.single opened)
    (show Record.Step _ (.dispose 1) _ from ⟨(by decide : 1 ∈ [1]), rfl⟩)
  have reaped := Runs.snoc disposed
    (show Record.Step _ (.pass fun _ => 40) _ from ⟨trivial, rfl⟩)
  exact ⟨_, by decide, (pool_sound reaped).2.1⟩

end Solusek.Database
