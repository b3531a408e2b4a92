import Solusek.Model.Objects

/-!
# Who deletes the objects of a server

What a server has made is what its destructor is to delete, or it is lost: a configuration that
another has replaced, a session that `destroySession` has forgotten.
-/

namespace Solusek.Objects

open Lifetimes Session

/-! ### Configurations -/

mutual

theorem deletions_perm (here : List Nat) : ∀ node : Config.CNode,
    (deletions here node).Perm (places here node)
  | .mk _ _ Children => by
    rw [deletions, places]
    exact (List.perm_append_singleton here _).trans
      ((deletionsBelow_perm here 0 Children).cons here)

theorem deletionsBelow_perm (here : List Nat) (k : Nat) : ∀ nodes : List Config.CNode,
    (deletionsBelow here k nodes).Perm (placesBelow here k nodes)
  | [] => by rw [deletionsBelow, placesBelow]
  | node :: rest => by
    rw [deletionsBelow, placesBelow]
    exact (deletions_perm _ node).append (deletionsBelow_perm here (k + 1) rest)

end

mutual

theorem places_below {here place : List Nat} : ∀ {node : Config.CNode},
    place ∈ places here node → here <+: place
  | .mk _ _ Children, member => by
    rw [places, List.mem_cons] at member
    rcases member with rfl | deeper
    · exact List.prefix_refl _
    · obtain ⟨j, _, below⟩ := placesBelow_below deeper
      exact (List.prefix_append here [j]).trans below

theorem placesBelow_below {here place : List Nat} {k : Nat} : ∀ {nodes : List Config.CNode},
    place ∈ placesBelow here k nodes → ∃ j, k ≤ j ∧ here ++ [j] <+: place
  | [], member => by
    rw [placesBelow] at member
    cases member
  | node :: rest, member => by
    rw [placesBelow, List.mem_append] at member
    rcases member with first | later
    · exact ⟨k, Nat.le_refl k, places_below first⟩
    · obtain ⟨j, beyond, below⟩ := placesBelow_below later
      exact ⟨j, Nat.le_of_succ_le beyond, below⟩

end

theorem same_turn {here place : List Nat} {j k : Nat} (one : here ++ [j] <+: place)
    (two : here ++ [k] <+: place) : j = k := by
  have same := (List.prefix_of_prefix_length_le one two (by simp)).eq_of_length (by simp)
  simpa using same

mutual

theorem places_nodup (here : List Nat) : ∀ node : Config.CNode, (places here node).Nodup
  | .mk _ _ Children => by
    rw [places, List.nodup_cons]
    refine ⟨fun member => ?_, placesBelow_nodup here 0 Children⟩
    obtain ⟨j, _, below⟩ := placesBelow_below member
    have short := below.length_le
    simp at short

theorem placesBelow_nodup (here : List Nat) (k : Nat) : ∀ nodes : List Config.CNode,
    (placesBelow here k nodes).Nodup
  | [] => by
    rw [placesBelow]
    exact List.nodup_nil
  | node :: rest => by
    rw [placesBelow]
    refine (places_nodup _ node).append (placesBelow_nodup here (k + 1) rest) ?_
    intro place first later
    obtain ⟨j, beyond, below⟩ := placesBelow_below later
    have same := same_turn (places_below first) below
    omega

end

/-! ### What the server has -/

/-- The places of configuration `c`, `BaseNode` first. -/
def settingsOf (configs : List (List Config.CNode)) (c : Nat) : List (List Nat) :=
  places [] (.mk [] [] (configs.getD c []))

def itemsOf (t : SessionTable) (p : Nat) : List Nat := ((t.heap[p]?).map (·.Items)).getD []

theorem itemsOf_inside {t : SessionTable} {p vv : Nat} (member : vv ∈ itemsOf t p) :
    p < t.heap.length := by
  by_contra beyond
  rw [itemsOf, List.getElem?_eq_none (Nat.le_of_not_lt beyond)] at member
  cases member

namespace State

/-- What `~CServer` is to delete. -/
def Has (s : State) : Option Object → Prop
  | some .server | some .database => True
  | some (.config c) => s.Config = some c
  | some (.setting c place) => s.Config = some c ∧ place ∈ settingsOf s.configs c
  | some (.endpoint e) => e ∈ s.Endpoints
  | some (.staticEndpoint k) => k ∈ s.StaticEndpoints
  | some (.session p) => p ∈ s.sessions.Sessions
  | some (.item p vv) => p ∈ s.sessions.Sessions ∧ vv ∈ itemsOf s.sessions p
  | _ => False

def Held (s : State) (_ : Unit) (o : Option Object) : Prop := s.disposed = false ∧ s.Has o

/-- Configurations that another has replaced, and sessions that `destroySession` has forgotten. -/
def Lost (s : State) : Option Object → Prop
  | some (.config c) => c < s.configs.length ∧ s.Config ≠ some c
  | some (.setting c place) => c < s.configs.length ∧ s.Config ≠ some c ∧ place ∈ settingsOf s.configs c
  | some (.session p) => p < s.sessions.heap.length ∧ p ∉ s.sessions.Sessions
  | some (.item p vv) => p ∉ s.sessions.Sessions ∧ vv ∈ itemsOf s.sessions p
  | _ => False

/-- The number of the object has been given out. -/
def Known (s : State) : Option Object → Prop
  | some (.config c) | some (.setting c _) => c < s.configs.length
  | some (.endpoint e) => e < s.endpoints
  | some (.staticEndpoint k) => k < s.StaticEndpoints.length
  | some (.session p) => p < s.sessions.heap.length
  | some (.item p vv) => ∃ ses, s.sessions.heap[p]? = some ses ∧ vv < ses.heap.length
  | some .server | some .database => True
  | _ => False

end State

/-- What holds of the lists of a server in every state. -/
structure Formed (s : State) : Prop where
  config : ∀ c, s.Config = some c → c < s.configs.length
  endpoints : ∀ e, e ∈ s.Endpoints ↔ e < s.endpoints
  directories : s.StaticEndpoints = List.range s.StaticEndpoints.length
  distinct : s.sessions.Sessions.Nodup
  listed : ∀ p ∈ s.sessions.Sessions, p < s.sessions.heap.length
  items : ∀ (p : Nat) (ses : CSession), s.sessions.heap[p]? = some ses →
    ∀ vv ∈ ses.Items, vv < ses.heap.length

/-- `own` is what has happened to the objects that are with the server. -/
structure Kept (s : State) (own : List Happening) : Prop where
  fine : Each Fine [] own
  books : Books own s.Held s.Lost
  known : ∀ o, .made o ∈ own → s.Known o
  formed : Formed s

namespace Kept

variable {s s' : State} {own : List Happening}

theorem frame (kept : Kept s own) (connections : List Connection) (Nodes : List Nat)
    (returned : Bool) (log : List Happening) :
    Kept { s with connections := connections, Nodes := Nodes, returned := returned, log := log }
      own :=
  ⟨kept.fine, kept.books, kept.known, kept.formed.config, kept.formed.endpoints,
    kept.formed.directories, kept.formed.distinct, kept.formed.listed, kept.formed.items⟩

theorem live (kept : Kept s own) (standing : s.disposed = false) {o : Option Object}
    (there : s.Has o ∨ s.Lost o) : Live own o :=
  (kept.books.live_iff o).mpr (there.imp_left fun has => ⟨(), standing, has⟩)

theorem live_server (kept : Kept s own) : Live own (some .server) ↔ s.disposed = false := by
  rw [kept.books.live_iff]
  simp [State.Held, State.Has, State.Lost]

theorem use (kept : Kept s own) {l : List (Option Object)} (alive : ∀ o ∈ l, Live own o) :
    Kept s (own ++ l.map .used) :=
  { kept with
    fine := (each_append _ _ _ _).mpr ⟨kept.fine, (each_fine_uses _ l).mpr alive⟩
    books := kept.books.uses l
    known := fun o made => kept.known o (by simpa using made) }

/-- What is alive is used, and then something new is made. -/
theorem make (kept : Kept s own) {used : List (Option Object)} (alive : ∀ o ∈ used, Live own o)
    {l : List (Option Object)} (distinct : l.Nodup) (fresh : ∀ o ∈ l, ¬ s.Known o)
    (books : Books (own ++ used.map .used) s.Held s.Lost →
      (∀ o ∈ l, .made o ∉ own ++ used.map .used) →
      Books (own ++ used.map .used ++ l.map .made) s'.Held s'.Lost)
    (known : ∀ o, s.Known o ∨ o ∈ l → s'.Known o) (formed : Formed s') :
    Kept s' (own ++ used.map .used ++ l.map .made) := by
  have first := kept.use alive
  have unmade : ∀ o ∈ l, .made o ∉ own ++ used.map .used := fun o member there =>
    fresh o member (first.known o there)
  refine ⟨(each_append _ _ _ _).mpr ⟨first.fine, each_fine_makes distinct unmade⟩,
    books first.books unmade, fun o made => ?_, formed⟩
  rcases List.mem_append.mp made with old | new
  · exact known o (Or.inl (first.known o old))
  · obtain ⟨_, member, same⟩ := List.mem_map.mp new
    rw [Event.made.injEq] at same
    exact known o (Or.inr (same ▸ member))

end Kept

end Solusek.Objects
