import Solusek.Model.Objects

/-!
# The objects of a connection

A log of a server is taken apart by owner. What a connection makes is its thread's alone: its life
is the same however the threads take turns, and nothing of it is left at the end.
-/

namespace Solusek.Objects

open Lifetimes

/-! ### Owners -/

inductive Owner where
  | nobody
  | server
  | connection (c : Nat)
  deriving DecidableEq

def Object.owner : Object → Owner
  | socket c | package c | node c | header c _ | page c => .connection c
  | _ => .server

def owner : Option Object → Owner
  | none => .nobody
  | some o => o.owner

@[simp] theorem owner_none : owner none = .nobody := rfl

@[simp] theorem owner_some (o : Object) : owner (some o) = o.owner := rfl

/-- The steps that use the socket of the connection. -/
def OnSocket : Server.NodeStep → Bool
  | .newNode | .pushNode | .writeResponse _ | .removeNode => true
  | _ => false

/-- The steps that use the server. -/
def OnServer : Server.NodeStep → Bool
  | .newNode | .writeResponse _ => false
  | _ => true

theorem owner_socket (x : Connection) (c : Nat) :
    owner (x.Socket c) = if x.socket then .connection c else .nobody := by
  unfold Connection.Socket
  split <;> rfl

variable {r : Route} {c : Nat} {x : Connection} {step : Server.NodeStep}

theorem part_headers_new (r : Route) (c : Nat) (i : Owner) :
    part owner i ((List.range r.headers).map fun k => new (.header c k)) =
      if i = .connection c then (List.range r.headers).map fun k => new (.header c k) else [] := by
  split
  · rename_i own
    refine part_own fun e member => ?_
    obtain ⟨k, _, rfl⟩ := List.mem_map.mp member
    exact own.symm
  · rename_i other
    refine part_other fun e member own => ?_
    obtain ⟨k, _, rfl⟩ := List.mem_map.mp member
    exact other own.symm

theorem part_deleteNode (r : Route) (c : Nat) (i : Owner) :
    part owner i (r.deleteNode c) = if i = .connection c then r.deleteNode c else [] := by
  have own : ∀ e ∈ r.deleteNode c, owner e.object = .connection c := by
    intro e member
    rcases List.mem_append.mp member with header | node
    · obtain ⟨k, _, rfl⟩ := List.mem_map.mp header
      rfl
    · rw [List.mem_singleton.mp node]
      rfl
  split
  · rename_i same
    exact part_own fun e member => (own e member).trans same.symm
  · rename_i other
    exact part_other fun e member same => other (same.symm.trans (own e member))

theorem happens_server (r : Route) (c : Nat) (x : Connection) (step : Server.NodeStep) :
    part owner .server (r.happens c (x.Socket c) step) =
      (if OnServer step then [some Object.server] else []).map .used := by
  have socket : owner (x.Socket c) ≠ .server := by
    rw [owner_socket]
    split <;> simp
  cases step <;> simp only [Route.happens, OnServer, part_append, part_headers_new, part_deleteNode]
  all_goals try cases r.found
  all_goals simp [part_cons, Event.object, Object.owner, socket]

theorem happens_other {d : Nat} (other : d ≠ c) (r : Route) (x : Connection)
    (step : Server.NodeStep) :
    part owner (.connection d) (r.happens c (x.Socket c) step) = [] := by
  have socket : owner (x.Socket c) ≠ .connection d := by
    rw [owner_socket]
    split <;> simp [other.symm]
  cases step <;> simp only [Route.happens, part_append, part_headers_new, part_deleteNode]
  all_goals try cases r.found
  all_goals simp [part_cons, Event.object, Object.owner, socket, other, other.symm]

theorem happens_nobody (r : Route) (c : Nat) (x : Connection) (step : Server.NodeStep) :
    part owner .nobody (r.happens c (x.Socket c) step) = [] ↔
      (OnSocket step = true → x.socket = true) := by
  have socket : owner (x.Socket c) = .nobody ↔ x.socket = false := by
    rw [owner_socket]
    cases x.socket <;> simp
  cases step <;>
    simp only [Route.happens, OnSocket, part_append, part_headers_new, part_deleteNode]
  all_goals try cases r.found
  all_goals cases set : x.socket <;> simp [part_cons, Event.object, Object.owner, socket, set]

theorem happens_made (r : Route) (c : Nat) (x : Connection) (step : Server.NodeStep) :
    .made none ∉ r.happens c (x.Socket c) step := by
  cases step <;> simp only [Route.happens, Route.deleteNode]
  all_goals try cases r.found
  all_goals simp

/-! ### The life of a connection -/

def begun (c : Nat) (x : Connection) : List Happening :=
  if x.socket then [new (.socket c)] else []

/-- What a connection's thread has done. -/
def served (c : Nat) (x : Connection) (r : Route) (done : List Server.NodeStep) : List Happening :=
  begun c x ++ [new (.package c), use (.package c)] ++ done.flatMap (r.happens c (x.Socket c))

/-- What has happened to the objects of connection `c`, and to others on the way. -/
def Lived (c : Nat) (l : List Happening) : Option Connection → Prop
  | none => l = []
  | some x =>
    match x.stage with
    | .accepted => l = begun c x
    | .dropped => l = begun c x ++ [.used (x.Socket c), .released (x.Socket c)]
    | .failed => l = begun c x ++ [new (.package c), use (.package c)]
    | .serving false r todo =>
      todo = Server.CServer.runNode r.toRoute ∧ l = begun c x ++ [new (.package c)]
    | .serving true r todo =>
      ∃ done, Server.CServer.runNode r.toRoute = done ++ todo ∧ l = served c x r done

/-- The middle of a life: after the headers have been made, and before they go. -/
def answered (c : Nat) (x : Connection) (r : Route) : List Happening :=
  part owner (.connection c)
    ((Server.CNode.run r.toRoute).dropLast.flatMap (r.happens c (x.Socket c)))

def Headers (r : Route) (c : Nat) : List (Option Object) :=
  (List.range r.headers).map fun k => some (.header c k)

theorem headers_nodup (r : Route) (c : Nat) : (Headers r c).Nodup := by
  refine List.nodup_range.map fun j k same => ?_
  simpa using same

theorem mem_headers {o : Option Object} :
    o ∈ Headers r c ↔ ∃ k < r.headers, o = some (.header c k) := by
  simp [Headers, eq_comm]

/-- The whole life of a connection's objects. -/
theorem served_part (c : Nat) (x : Connection) (r : Route) :
    part owner (.connection c) (served c x r (Server.CServer.runNode r.toRoute)) =
      begun c x ++ [new (.package c), use (.package c), use (.package c), new (.node c)] ++
      (begun c x).map (fun _ => use (.socket c)) ++ [use (.node c)] ++
      (begun c x).map (fun _ => use (.socket c)) ++ (Headers r c).map .made ++ answered c x r ++
      [use (.node c)] ++ (begun c x).flatMap (fun _ => [use (.socket c), delete (.socket c)]) ++
      (Headers r c).map .released ++ [delete (.node c), delete (.package c)] := by
  have last : Server.CNode.run r.toRoute =
      (Server.CNode.run r.toRoute).dropLast ++ [.removeNode] := by
    simp [Server.CNode.run]
  unfold served Server.CServer.runNode answered
  rw [last]
  have gone : part owner (.connection c) (r.deleteNode c) =
      (Headers r c).map .released ++ [delete (.node c)] := by
    rw [part_deleteNode, if_pos rfl, Headers, List.map_map]
    rfl
  cases set : x.socket <;>
    simp [begun, set, Connection.Socket, Route.happens, part_headers_new, gone, part_cons,
      Event.object, Object.owner, Headers, Function.comp_def]

theorem each_fine_headers (r : Route) (c : Nat) {log : List Happening}
    (fresh : ∀ k, new (.header c k) ∉ log) : Each Fine log ((Headers r c).map .made) := by
  refine each_fine_makes (headers_nodup r c) fun o member => ?_
  obtain ⟨k, _, rfl⟩ := mem_headers.mp member
  exact fresh k

theorem each_fine_headers_gone (r : Route) (c : Nat) {log : List Happening}
    (there : ∀ k < r.headers, Live log (some (.header c k))) :
    Each Fine log ((Headers r c).map .released) := by
  refine (each_fine_releases _ _).mpr ⟨fun o member => ?_, headers_nodup r c⟩
  obtain ⟨k, below, rfl⟩ := mem_headers.mp member
  exact there k below

theorem answered_cases (c : Nat) (x : Connection) (r : Route) :
    answered c x r = [] ∨
    answered c x r = [use (.node c), use (.node c)] ++ (begun c x).map (fun _ => use (.socket c)) ∨
    answered c x r = [use (.node c), use (.node c), use (.node c)] ++
      (begun c x).map (fun _ => use (.socket c)) ∨
    answered c x r = [use (.node c), use (.node c), new (.page c), use (.page c), use (.node c)] ++
      (begun c x).map (fun _ => use (.socket c)) ++ [delete (.page c)] := by
  unfold answered
  obtain ⟨⟨header, found, sent⟩, headers⟩ := r
  rcases header with e | path
  · exact Or.inl (by simp [Server.CNode.run])
  · by_cases empty : path.length > 0
    · refine Or.inr ?_
      cases found <;> cases set : x.socket <;>
        simp [Server.CNode.run, empty, Route.happens, begun, set, Connection.Socket, part_cons,
          Event.object, Object.owner]
    · exact Or.inl (by simp [Server.CNode.run, empty])

theorem served_fine (c : Nat) (x : Connection) (r : Route) :
    Each Fine []
      (part owner (.connection c) (served c x r (Server.CServer.runNode r.toRoute))) := by
  rw [served_part]
  simp only [each_append, List.nil_append, and_assoc]
  refine ⟨?_, ?_, ?_, ?_, ?_, each_fine_headers r c ?_, ?_, ?_, ?_,
    each_fine_headers_gone r c fun k below => ?_, ?_⟩
  all_goals rcases answered_cases c x r with h | h | h | h <;> try rw [h]
  all_goals cases set : x.socket <;> simp_all [begun, Fine, Tidy, Safe, Live, mem_headers]

/-- Nothing of a connection is left when its thread has finished. -/
theorem served_over {o : Option Object} (own : owner o = .connection c) (x : Connection) (r : Route) :
    ¬ Live (served c x r (Server.CServer.runNode r.toRoute)) o := by
  rw [← live_part own, served_part]
  rcases answered_cases c x r with h | h | h | h <;> rw [h]
  all_goals cases set : x.socket <;> simp [begun, set, Live, mem_headers]
  all_goals grind

theorem lived_fine {l : List Happening} {place : Option Connection} (lived : Lived c l place) :
    Each Fine [] (part owner (.connection c) l) := by
  rcases place with _ | ⟨socket, stage⟩
  · obtain rfl : l = [] := lived
    trivial
  · -- All but a dropped connection are at some place of the whole life.
    have whole (more : List Happening) (r : Route)
        (same : l ++ more = served c ⟨socket, stage⟩ r (Server.CServer.runNode r.toRoute)) :
        Each Fine [] (part owner (.connection c) l) := by
      refine each_prefix (m := part owner (.connection c) more) ?_
      rw [← part_append, same]
      exact served_fine c _ r
    let plain : Route := { header := .ok [], found := .missing, sent := true, headers := 0 }
    cases stage with
    | accepted =>
      obtain rfl : l = begun c _ := lived
      exact whole _ plain (List.append_assoc _ _ _).symm
    | dropped =>
      obtain rfl : l = begun c _ ++ _ := lived
      cases socket <;>
        simp [begun, Connection.Socket, part_cons, Event.object, Object.owner, Fine, Tidy, Safe,
          Live]
    | failed =>
      obtain rfl : l = begun c _ ++ _ := lived
      exact whole _ plain rfl
    | serving ID r todo =>
      cases ID with
      | false =>
        obtain ⟨_, rfl⟩ := lived
        refine whole ([use (.package c)] ++
          (Server.CServer.runNode r.toRoute).flatMap
            (r.happens c (Connection.Socket ⟨socket, .serving false r todo⟩ c))) r ?_
        simp [served]
      | true =>
        obtain ⟨done, split, rfl⟩ := lived
        refine whole
          (todo.flatMap (r.happens c (Connection.Socket ⟨socket, .serving true r todo⟩ c))) r ?_
        rw [split, served, served, List.flatMap_append, List.append_assoc]

end Solusek.Objects
