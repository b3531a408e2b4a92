import Solusek.Proofs.ServerSteps

/-!
# The destructor of a server

`~CServer` deletes what the server has. Each object goes once as long as no entry is listed twice,
and no node of an unfinished thread is among what it joins.
-/

namespace Solusek.Objects

open Lifetimes Session

def configDisposal (s : State) : List (Option Object) :=
  match s.Config with
  | none => []
  | some c => (deletions [] (.mk [] [] (s.configs.getD c []))).map (fun place =>
      some (.setting c place)) ++ [some (.config c)]

def sessionDisposal (t : SessionTable) (p : Nat) : List (Option Object) :=
  (itemsOf t p).map (fun vv => some (.item p vv)) ++ [some (.session p)]

/-- What `~CServer` deletes, apart from nodes, one after another. -/
def disposal (s : State) : List (Option Object) :=
  configDisposal s ++ s.Endpoints.reverse.map (fun e => some (.endpoint e)) ++
    s.sessions.Sessions.reverse.flatMap (sessionDisposal s.sessions) ++
    s.StaticEndpoints.reverse.map (fun k => some (.staticEndpoint k)) ++
    [some .database, some .server]

theorem mem_configDisposal {s : State} {o : Option Object} : o ∈ configDisposal s ↔
    (∃ c, s.Config = some c ∧ o = some (.config c)) ∨
    ∃ c place, s.Config = some c ∧ place ∈ settingsOf s.configs c ∧
      o = some (.setting c place) := by
  unfold configDisposal settingsOf
  cases s.Config with
  | none => simp
  | some c => simp [(deletions_perm [] _).mem_iff, eq_comm, or_comm]

theorem mem_sessionDisposal {t : SessionTable} {p : Nat} {o : Option Object} :
    o ∈ sessionDisposal t p ↔
      o = some (.session p) ∨ ∃ vv ∈ itemsOf t p, o = some (.item p vv) := by
  simp [sessionDisposal, eq_comm, or_comm]

theorem mem_disposal (s : State) (o : Option Object) : o ∈ disposal s ↔ s.Has o := by
  simp only [disposal, List.mem_append, mem_configDisposal, List.mem_map, List.mem_reverse,
    List.mem_flatMap, mem_sessionDisposal, List.mem_cons, List.not_mem_nil, or_false]
  rcases o with _ | o
  · simp [State.Has]
  · cases o <;> simp [State.Has]

theorem configDisposal_nodup (s : State) : (configDisposal s).Nodup := by
  unfold configDisposal
  split
  · exact List.nodup_nil
  · rename_i c _
    refine ((deletions_perm [] _).map _).nodup_iff.mpr (places_perm c _) |>.append
      (List.nodup_singleton _) ?_
    simp [List.disjoint_singleton]

theorem sessionDisposal_nodup (t : SessionTable) (p : Nat) :
    (sessionDisposal t p).Nodup ↔ (itemsOf t p).Nodup := by
  have inj : Function.Injective fun vv => some (Object.item p vv) := fun one two same => by
    simpa using same
  simp [sessionDisposal, List.nodup_append, List.nodup_map_iff inj]

theorem sessions_nodup {t : SessionTable} (distinct : t.Sessions.Nodup) :
    (t.Sessions.reverse.flatMap (sessionDisposal t)).Nodup ↔
      ∀ p ∈ t.Sessions, (itemsOf t p).Nodup := by
  rw [List.nodup_flatMap, and_iff_left]
  · simp [sessionDisposal_nodup]
  · refine (List.nodup_reverse.mpr distinct).imp fun {p q} apart o one two => ?_
    rw [mem_sessionDisposal] at one two
    rcases one with rfl | ⟨vv, _, rfl⟩
    · exact apart (by simpa using two)
    · simp only [reduceCtorEq, Option.some.injEq, Object.item.injEq, false_or] at two
      obtain ⟨_, _, same, _⟩ := two
      exact apart same

/-- Nothing is deleted twice unless an endpoint or an item is listed twice. -/
theorem disposal_nodup {s : State} (formed : Formed s) : (disposal s).Nodup ↔
    s.Endpoints.Nodup ∧ ∀ p ∈ s.sessions.Sessions, (itemsOf s.sessions p).Nodup := by
  have endpoints : Function.Injective fun e => some (Object.endpoint e) := fun one two same => by
    simpa using same
  have directories : Function.Injective fun k => some (Object.staticEndpoint k) :=
    fun one two same => by simpa using same
  have ranged : s.StaticEndpoints.Nodup := formed.directories ▸ List.nodup_range
  rw [← sessions_nodup formed.distinct]
  unfold disposal
  simp only [List.nodup_append, List.nodup_map_iff endpoints, List.nodup_map_iff directories,
    List.nodup_reverse, configDisposal_nodup, ranged]
  simp [mem_configDisposal, mem_sessionDisposal]
  refine ⟨fun all => ⟨all.1.1.1.1, all.1.1.2.1⟩,
    fun both => ⟨⟨⟨⟨both.1, ?_⟩, both.2, ?_⟩, ?_⟩, ?_⟩⟩
  all_goals grind

namespace Kept

variable {s : State} {own : List Happening}

theorem disposal_live (kept : Kept s own) (standing : s.disposed = false) :
    ∀ o ∈ disposal s, Live (own ++ [some Object.server].map .used) o := by
  intro o member
  rw [live_uses]
  exact kept.live standing (Or.inl ((mem_disposal s o).mp member))

theorem dispose_fine (kept : Kept s own) (standing : s.disposed = false) :
    Each Fine [] (own ++ [some Object.server].map .used ++ (disposal s).map .released) ↔
      (disposal s).Nodup := by
  rw [each_append, List.nil_append, each_fine_releases,
    and_iff_right (kept.use (kept.uses_server standing)).fine,
    and_iff_right (kept.disposal_live standing)]

theorem dispose (kept : Kept s own) (standing : s.disposed = false) (once : (disposal s).Nodup) :
    Kept { s with disposed := true }
      (own ++ [some Object.server].map .used ++ (disposal s).map .released) := by
  refine ⟨(kept.dispose_fine standing).mpr once, ?_, fun o made => kept.known o (by simpa using made),
    ⟨kept.formed.config, kept.formed.endpoints, kept.formed.directories, kept.formed.distinct,
      kept.formed.listed, kept.formed.items⟩⟩
  refine (kept.books.uses _).releases once
    (fun o member => ⟨(), standing, (mem_disposal s o).mp member⟩)
    fun _ o => ?_
  rw [mem_disposal]
  simp [State.Held]

end Kept

namespace Sound

variable {s : State}

/-- What `~CServer` does: the nodes stand between the configuration and the rest. -/
theorem dispose_eq (formed : Formed s) : ∃ config rest,
    s.dispose.log =
      s.log ++ ([use .server] ++ config ++ s.Nodes.reverse.flatMap s.joinNode ++ rest) ∧
    config ++ rest = (disposal s).map .released := by
  have config : s.deleteConfig = (configDisposal s).map .released := by
    unfold State.deleteConfig configDisposal
    cases s.Config <;> simp [Function.comp_def]
  have session : s.sessions.Sessions.reverse.flatMap s.deleteSession =
      (s.sessions.Sessions.reverse.flatMap (sessionDisposal s.sessions)).map .released := by
    rw [List.map_flatMap]
    refine List.flatMap_congr fun p member => ?_
    obtain ⟨ses, found⟩ : ∃ ses, s.sessions.heap[p]? = some ses :=
      ⟨_, List.getElem?_eq_getElem (formed.listed p (List.mem_reverse.mp member))⟩
    simp [State.deleteSession, sessionDisposal, itemsOf, found, CSession.destructor,
      Function.comp_def]
  refine ⟨s.deleteConfig, s.Endpoints.reverse.map (fun e => delete (.endpoint e)) ++
    s.sessions.Sessions.reverse.flatMap s.deleteSession ++
    s.StaticEndpoints.reverse.map (fun k => delete (.staticEndpoint k)) ++
    [delete .database, delete .server], ?_, ?_⟩
  · simp [State.dispose, State.add]
  · rw [config, session]
    simp [disposal, Function.comp_def]

theorem joinNode_nobody (s : State) (c : Nat) :
    part owner .nobody (s.joinNode c) = [.used none] := by
  unfold State.joinNode
  split <;> simp [part_cons, part_deleteNode, Event.object, Object.owner]

theorem joinNode_made (s : State) (c : Nat) : .made none ∉ s.joinNode c := by
  unfold State.joinNode
  split <;> simp [Route.deleteNode]

theorem joinNode_server (s : State) (c : Nat) : part owner .server (s.joinNode c) = [] := by
  unfold State.joinNode
  split <;> simp [part_cons, part_deleteNode, Event.object, Object.owner]

/-- The parts of the destructor's log. -/
theorem dispose_log (formed : Formed s) : ∃ l, s.dispose.log = s.log ++ l ∧ .made none ∉ l ∧
    (part owner .nobody l = [] ↔ s.Nodes = []) ∧
    part owner .server l = [some Object.server].map .used ++ (disposal s).map .released ∧
    (s.Nodes = [] → ∀ c, part owner (.connection c) l = []) := by
  obtain ⟨config, rest, log, whole⟩ := dispose_eq formed
  have mine : ∀ e ∈ config ++ rest, owner e.object = .server := by
    intro e member
    rw [whole] at member
    obtain ⟨o, there, rfl⟩ := List.mem_map.mp member
    have has := (mem_disposal s o).mp there
    rcases o with _ | o
    · exact has.elim
    · cases o <;> first | rfl | exact has.elim
  obtain ⟨first, second⟩ := List.forall_mem_append.mp mine
  have nodes (i : Owner) : part owner i (s.Nodes.reverse.flatMap s.joinNode) =
      s.Nodes.reverse.flatMap fun c => part owner i (s.joinNode c) := part_flatMap i _ _
  have elsewhere : ∀ i, i ≠ .server → part owner i ([use .server] ++ config ++
      s.Nodes.reverse.flatMap s.joinNode ++ rest) =
        s.Nodes.reverse.flatMap fun c => part owner i (s.joinNode c) := by
    intro i other
    simp only [part_append, nodes, part_other fun e member => first e member ▸ other.symm,
      part_other fun e member => second e member ▸ other.symm, List.append_nil]
    simp [part_cons, Event.object, Object.owner, other.symm]
  refine ⟨_, log, ?_, ?_, ?_, fun empty c => ?_⟩
  · have nobody : .made none ∉ config ++ rest := fun there => by
      rw [whole] at there
      simp at there
    simp only [List.mem_append, not_or] at nobody
    simp [nobody, joinNode_made]
  · rw [elsewhere _ (by simp), List.flatMap_eq_nil_iff, List.eq_nil_iff_forall_not_mem]
    simp [joinNode_nobody]
  · simp only [part_append, nodes, joinNode_server, part_own first, part_own second]
    rw [← whole]
    simp [part_cons, Event.object, Object.owner]
  · rw [elsewhere _ (by simp), empty]
    rfl

theorem dispose (sound : Sound s) (standing : s.disposed = false) (empty : s.Nodes = [])
    (once : (disposal s).Nodup) : Sound s.dispose := by
  obtain ⟨l, log, _, nobody, server, others⟩ := dispose_log sound.kept.formed
  refine ⟨?_, fun c => ?_, ?_⟩
  · rw [log, part_append, sound.nobody, nobody.mpr empty, List.append_nil]
  · obtain ⟨m, lived, same⟩ := sound.lives c
    exact ⟨m, lived, by rw [log, part_append, others empty c, List.append_nil, same]⟩
  · rw [log, part_append, server, ← List.append_assoc]
    exact (sound.kept.dispose standing once).frame _ _ _ _

end Sound

end Solusek.Objects
