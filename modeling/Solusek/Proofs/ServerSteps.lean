import Solusek.Proofs.ConnectionObjects
import Solusek.Proofs.ServerCalls

/-!
# The steps of a server

The accept loop, the node threads and the program each take their step, and what has happened to
objects goes on to fit where the connections and the server stand.
-/

namespace Solusek.Objects

open Lifetimes Session

/-- What has happened to objects goes together with where the connections and the server stand. -/
structure Sound (s : State) : Prop where
  nobody : part owner .nobody s.log = []
  lives : ∀ c, ∃ l, Lived c l s.connections[c]? ∧
    part owner (.connection c) s.log = part owner (.connection c) l
  kept : Kept s (part owner .server s.log)

/-- What an action must not do: load a file that cannot be opened, use the null of a refused
address, touch a server that is gone, or delete it too early or with entries listed twice. -/
def State.Sane (s : State) : Action → Prop
  | .call (.loadConfig file) => file ≠ none
  | .drop c =>
    match s.connections[c]? with
    | some x => x.socket = true
    | none => True
  | .thread c =>
    match s.connections[c]? with
    | some ⟨socket, .serving true _ (step :: _)⟩ =>
      (OnSocket step = true → socket = true) ∧ (OnServer step = true → s.disposed = false)
    | _ => True
  | .dispose => s.Nodes = [] ∧ s.Endpoints.Nodup ∧
      ∀ p ∈ s.sessions.Sessions, (itemsOf s.sessions p).Nodup
  | _ => True

def State.Clean (s : State) : Prop := Each Fine [] s.log

section
variable {s : State} {c : Nat} {socket : Bool}

theorem next_drop {x : Connection} (found : s.connections[c]? = some x) :
    s.next (.drop c) = s.drop c x := by
  simp [State.next, found]

theorem next_create {x : Connection} (found : s.connections[c]? = some x) (route : Option Route) :
    s.next (.create c route) = s.create c x route := by
  simp [State.next, found]

theorem next_assign {ID : Bool} {r : Route} {todo : List Server.NodeStep}
    (found : s.connections[c]? = some ⟨socket, .serving ID r todo⟩) :
    s.next (.assign c) = s.assign c ⟨socket, .serving ID r todo⟩ r todo := by
  simp [State.next, found]

theorem next_thread {ID : Bool} {r : Route} {step : Server.NodeStep} {rest : List Server.NodeStep}
    (found : s.connections[c]? = some ⟨socket, .serving ID r (step :: rest)⟩) :
    s.next (.thread c) = s.thread c ⟨socket, .serving ID r (step :: rest)⟩ r step rest := by
  simp [State.next, found]

end

theorem fine_unmade {l : List Happening} (fine : Each Fine [] l) (unmade : ∀ o, .made o ∉ l) :
    l = [] := by
  cases l with
  | nil => rfl
  | cons e l =>
    have dead (o : Option Object) : ¬ Live ([] : List Happening) o := fun live => by cases live.1
    obtain ⟨⟨tidy, safe⟩, _⟩ := fine
    cases e with
    | made o => exact absurd List.mem_cons_self (unmade o)
    | used o => exact absurd safe (dead o)
    | released o => exact absurd tidy (dead o)

namespace Sound

variable {s s' : State} {l : List Happening}

theorem clean (sound : Sound s) : s.Clean := by
  refine (each_fine_parts owner s.log).mpr fun i => ?_
  cases i with
  | nobody =>
    rw [sound.nobody]
    trivial
  | server => exact sound.kept.fine
  | connection c =>
    obtain ⟨l, lived, same⟩ := sound.lives c
    exact same ▸ lived_fine lived

/-- Nothing that nobody has is touched. -/
theorem nobody_clean (sound : Sound s) (clean : Each Fine [] (s.log ++ l))
    (unmade : .made none ∉ l) : part owner .nobody l = [] := by
  have fine := (each_fine_parts owner _).mp clean .nobody
  rw [part_append, sound.nobody, List.nil_append] at fine
  refine fine_unmade fine fun o member => ?_
  obtain ⟨there, own⟩ := mem_part.mp member
  rcases o with _ | o
  · exact unmade there
  · cases o <;> cases own

theorem server_fine (clean : Each Fine [] (s.log ++ l)) :
    Each Fine [] (part owner .server s.log ++ part owner .server l) := by
  rw [← part_append]
  exact (each_fine_parts owner _).mp clean .server

/-- A step that touches what is with the server alone. -/
theorem serving (sound : Sound s) (connections : s'.connections = s.connections)
    (log : s'.log = s.log ++ l) (mine : ∀ e ∈ l, owner e.object = .server)
    {own : List Happening} (same : part owner .server s.log ++ l = own) (kept : Kept s' own) :
    Sound s' := by
  have elsewhere : ∀ i, i ≠ .server → part owner i l = [] := fun i other =>
    part_other fun e member => mine e member ▸ other.symm
  refine ⟨?_, fun c => ?_, ?_⟩
  · rw [log, part_append, sound.nobody, elsewhere _ (by simp), List.append_nil]
  · obtain ⟨m, lived, before⟩ := sound.lives c
    refine ⟨m, connections ▸ lived, ?_⟩
    rw [log, part_append, before, elsewhere _ (by simp), List.append_nil]
  · rw [log, part_append, part_own mine, same]
    exact kept

/-- A step of connection `c`. -/
theorem putting (sound : Sound s) {c : Nat} {x x' : Connection}
    (found : s.connections[c]? = some x) (Nodes : List Nat) (used : List (Option Object))
    (nobody : part owner .nobody l = [])
    (other : ∀ d, d ≠ c → part owner (.connection d) l = [])
    (lived : ∀ m, Lived c m (some x) → Lived c (m ++ l) (some x'))
    (server : part owner .server l = used.map .used)
    (alive : ∀ o ∈ used, Live (part owner .server s.log) o) :
    Sound (State.put { s with Nodes := Nodes } c x' l) := by
  have log : (State.put { s with Nodes := Nodes } c x' l).log = s.log ++ l := rfl
  refine ⟨?_, fun d => ?_, ?_⟩
  · rw [log, part_append, sound.nobody, nobody, List.append_nil]
  · obtain ⟨m, before, same⟩ := sound.lives d
    have place : (State.put { s with Nodes := Nodes } c x' l).connections[d]? =
        (s.connections.set c x')[d]? := rfl
    by_cases own : d = c
    · subst own
      have bound := (List.getElem?_eq_some_iff.mp found).1
      rw [place, List.getElem?_set_self bound]
      rw [found] at before
      exact ⟨m ++ l, lived m before, by rw [log, part_append, part_append, same]⟩
    · rw [place, List.getElem?_set_ne (Ne.symm own)]
      exact ⟨m, before, by rw [log, part_append, other d own, List.append_nil, same]⟩
  · rw [log, part_append, server]
    exact (sound.kept.use alive).frame _ _ _ _

theorem accept (sound : Sound s) (socket : Bool) : Sound (s.accept socket) := by
  have happened :
      (s.accept socket).log = s.log ++ begun s.connections.length ⟨socket, .accepted⟩ := rfl
  have mine : ∀ e ∈ begun s.connections.length ⟨socket, .accepted⟩,
      owner e.object = .connection s.connections.length := by
    cases socket <;> simp [begun, Event.object, Object.owner]
  have elsewhere : ∀ i, i ≠ .connection s.connections.length →
      part owner i (begun s.connections.length ⟨socket, .accepted⟩) = [] := fun i other =>
    part_other fun e member => mine e member ▸ other.symm
  refine ⟨?_, fun d => ?_, ?_⟩
  · rw [happened, part_append, sound.nobody, elsewhere _ (by simp), List.append_nil]
  · obtain ⟨m, lived, same⟩ := sound.lives d
    have place : (s.accept socket).connections[d]? =
        (s.connections ++ [Connection.mk socket .accepted])[d]? := rfl
    rw [place]
    by_cases own : d = s.connections.length
    · subst own
      obtain rfl : m = [] := by
        rw [List.getElem?_eq_none (Nat.le_refl _)] at lived
        exact lived
      refine ⟨begun s.connections.length ⟨socket, .accepted⟩, ?_, ?_⟩
      · rw [List.getElem?_concat_length]
        rfl
      · rw [happened, part_append, same, part_nil, List.nil_append]
    · refine ⟨m, ?_, ?_⟩
      · rcases Nat.lt_or_ge d s.connections.length with below | above
        · rwa [List.getElem?_append_left below]
        · rw [List.getElem?_eq_none above] at lived
          rwa [List.getElem?_eq_none (by rw [List.length_append, List.length_singleton]; omega)]
      · rw [happened, part_append, elsewhere _ (by simpa using own), List.append_nil, same]
  · rw [happened, part_append, elsewhere _ (by simp), List.append_nil]
    exact sound.kept.frame _ _ _ _

/-! ### The steps of a connection -/

theorem drop (sound : Sound s) {c : Nat} {socket : Bool}
    (found : s.connections[c]? = some ⟨socket, .accepted⟩) (there : socket = true) :
    Sound (s.drop c ⟨socket, .accepted⟩) := by
  subst there
  refine sound.putting found s.Nodes [] ?_ (fun d other => ?_) (fun m lived => ?_) ?_ ?_
  · rfl
  · simp [Connection.Socket, part_cons, Event.object, Object.owner, other.symm]
  · obtain rfl : m = begun c _ := lived
    rfl
  · rfl
  · exact List.forall_mem_nil _

theorem create (sound : Sound s) {c : Nat} {socket : Bool}
    (found : s.connections[c]? = some ⟨socket, .accepted⟩) (route : Option Route) :
    Sound (s.create c ⟨socket, .accepted⟩ route) := by
  cases route with
  | some r =>
    refine sound.putting found s.Nodes [] rfl (fun d other => ?_) (fun m lived => ?_) rfl
      (List.forall_mem_nil _)
    · simp [part_cons, Event.object, Object.owner, other.symm]
    · obtain rfl : m = begun c _ := lived
      exact ⟨rfl, rfl⟩
  | none =>
    refine sound.putting found s.Nodes [] rfl (fun d other => ?_) (fun m lived => ?_) rfl
      (List.forall_mem_nil _)
    · simp [part_cons, Event.object, Object.owner, other.symm]
    · obtain rfl : m = begun c _ := lived
      rfl

theorem assign (sound : Sound s) {c : Nat} {socket : Bool} {r : Route}
    {todo : List Server.NodeStep}
    (found : s.connections[c]? = some ⟨socket, .serving false r todo⟩) :
    Sound (s.assign c ⟨socket, .serving false r todo⟩ r todo) := by
  refine sound.putting found s.Nodes [] rfl (fun d other => ?_) (fun m lived => ?_) rfl
    (List.forall_mem_nil _)
  · simp [part_cons, Event.object, Object.owner, other.symm]
  · obtain ⟨whole, rfl⟩ := lived
    exact ⟨[], whole.symm, by simp [served, begun]⟩

theorem thread (sound : Sound s) {c : Nat} {socket : Bool} {r : Route} {step : Server.NodeStep}
    {rest : List Server.NodeStep}
    (found : s.connections[c]? = some ⟨socket, .serving true r (step :: rest)⟩)
    (wired : OnSocket step = true → socket = true)
    (standing : OnServer step = true → s.disposed = false) :
    Sound (s.thread c ⟨socket, .serving true r (step :: rest)⟩ r step rest) := by
  obtain ⟨Nodes, listing⟩ : ∃ Nodes, s.listing c step = { s with Nodes := Nodes } := by
    cases step <;> exact ⟨_, rfl⟩
  unfold State.thread
  rw [listing]
  refine sound.putting found Nodes _ ((happens_nobody r c _ step).mpr wired)
    (fun d other => happens_other other r _ step) (fun m lived => ?_)
    (happens_server r c ⟨socket, .serving true r (step :: rest)⟩ step) ?_
  · obtain ⟨done, split, rfl⟩ := lived
    refine ⟨done ++ [step], by rw [split, List.append_assoc]; rfl, ?_⟩
    simp [served, begun, Connection.Socket]
  · split
    · rename_i on
      exact sound.kept.uses_server (standing on)
    · exact List.forall_mem_nil _

/-! ### The calls of a program -/

theorem get_mine (ses : CSession) (p : Nat) (name : Str) :
    ∀ e ∈ State.get ses p name, owner e.object = .server := by
  simp [State.get, Event.object, Object.owner]

theorem call (sound : Sound s) {call : Call} (allowed : s.Allowed (.call call))
    (sane : s.Sane (.call call)) : Sound (s.call call) := by
  obtain ⟨standing, fits⟩ := allowed
  cases call with
  | loadConfig file =>
    cases file with
    | none => exact absurd rfl sane
    | some text =>
      show Sound (s.loadConfig (some text))
      unfold State.loadConfig
      dsimp only
      split
      · exact sound
      · rename_i top _
        refine sound.serving rfl rfl ?_ ?_ ((sound.kept.loadConfig standing top).frame _ _ _ _)
        · simp [Event.object, Object.owner]
        · simp [Function.comp_def]
  | registerEndpoint e =>
    show Sound (s.registerEndpoint e)
    unfold State.registerEndpoint
    split
    · rename_i new
      subst new
      refine sound.serving rfl rfl ?_ ?_ ((sound.kept.registerEndpoint_new standing).frame _ _ _ _)
      · simp [Event.object, Object.owner]
      · simp
    · rename_i old
      have below : e < s.endpoints := Nat.lt_of_le_of_ne fits old
      refine sound.serving rfl rfl ?_ rfl
        ((sound.kept.registerEndpoint_old standing below).frame _ _ _ _)
      simp [Event.object, Object.owner]
  | addStaticDirectory =>
    refine sound.serving rfl rfl ?_ ?_ ((sound.kept.addStaticDirectory standing).frame _ _ _ _)
    · simp [Event.object, Object.owner]
    · simp
  | startSession now =>
    refine sound.serving rfl rfl ?_ ?_ ((sound.kept.startSession standing now).frame _ _ _ _)
    · simp [Event.object, Object.owner]
    · simp
  | getSession id =>
    refine sound.serving rfl rfl ?_ ?_
      ((sound.kept.use (sound.kept.looked_live standing id)).frame _ _ _ _)
    · simp [Event.object, Object.owner]
    · simp [Function.comp_def]
  | destroySession id =>
    refine sound.serving rfl rfl ?_ ?_ ((sound.kept.destroySession standing id).frame _ _ _ _)
    · simp [Event.object, Object.owner]
    · simp [Function.comp_def]
  | setStringValue p name value =>
    obtain ⟨ses, found⟩ : ∃ ses, s.sessions.heap[p]? = some ses :=
      ⟨_, List.getElem?_eq_getElem fits⟩
    have looked := sound.kept.get_live standing found fun vv =>
      (ses.heap[vv]?).map (·.Var) == some name
    show Sound (s.setStringValue p name value)
    unfold State.setStringValue
    rw [found]
    dsimp only
    cases there : ses.get name with
    | some vv =>
      have own : vv ∈ itemsOf s.sessions p := by
        rw [itemsOf, found]
        exact (CSession.get_some there).1
      have kept := (sound.kept.setStringValue_old found there value).use looked
      refine sound.serving rfl rfl ?_ ?_ ((kept.use (l := [some (.item p vv)]) ?_).frame _ _ _ _)
      · exact List.forall_mem_append.mpr ⟨get_mine ses p name, by simp [Event.object, Object.owner]⟩
      · simp [State.get, Function.comp_def]
      · rw [List.forall_mem_singleton, live_uses]
        exact sound.kept.item_live standing own
    | none =>
      have kept := sound.kept.setStringValue_new standing found there value looked
      refine sound.serving rfl rfl ?_ ?_
        ((kept.use (l := [some (.item p ses.heap.length)]) ?_).frame _ _ _ _)
      · exact List.forall_mem_append.mpr ⟨get_mine ses p name, by simp [Event.object, Object.owner]⟩
      · simp [State.get, Function.comp_def]
      · rw [List.forall_mem_singleton]
        refine kept.item_live standing ((mem_itemsOf_set found name value p _).mpr ?_)
        exact Or.inr ⟨rfl, there, rfl⟩
  | getStringValue p name =>
    obtain ⟨ses, found⟩ : ∃ ses, s.sessions.heap[p]? = some ses :=
      ⟨_, List.getElem?_eq_getElem fits⟩
    have looked := sound.kept.get_live standing found fun vv =>
      (ses.heap[vv]?).map (·.Var) == some name
    show Sound (s.getStringValue p name)
    unfold State.getStringValue
    rw [found]
    refine sound.serving rfl rfl ?_ ?_ ((sound.kept.use looked).frame _ _ _ _)
    · exact get_mine ses p name
    · simp [State.get, Function.comp_def]

end Sound

end Solusek.Objects
