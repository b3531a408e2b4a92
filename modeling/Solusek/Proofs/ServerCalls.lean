import Solusek.Proofs.ServerObjects
import Solusek.Proofs.SessionItems

/-!
# The calls of a program on its server

Each call uses only what the server has, and the server has what the call makes; what it no longer
has is deleted or lost.
-/

namespace Solusek.Objects

open Lifetimes Session

theorem places_perm (c : Nat) (top : Config.CNode) :
    ((places [] top).map fun place => some (Object.setting c place)).Nodup := by
  refine (places_nodup [] top).map fun one two same => ?_
  simpa using same

theorem mem_upTo {α : Type*} {p : α → Bool} {l : List α} {y : α} (member : y ∈ upTo p l) :
    y ∈ l := by
  induction l with
  | nil => exact member
  | cons z l ih =>
    rw [upTo, List.mem_cons] at member
    rcases member with rfl | later
    · exact List.mem_cons_self
    · split at later
      · cases later
      · exact List.mem_cons_of_mem _ (ih later)

theorem itemsOf_startSession (t : SessionTable) (now p : Nat) :
    itemsOf (t.startSession now) p = itemsOf t p := by
  simp only [itemsOf, SessionTable.startSession, List.getElem?_append]
  split
  · rfl
  · rename_i beyond
    rw [List.getElem?_eq_none (Nat.le_of_not_lt beyond)]
    rcases p - t.heap.length with _ | k <;> rfl

theorem heap_setStringValue (t : SessionTable) (p : Nat) (name value : Str) (q : Nat) :
    (t.setStringValue p name value).heap[q]? =
      if p = q then (t.heap[q]?).map (·.setStringValue name value) else t.heap[q]? := by
  simp only [SessionTable.setStringValue, List.getElem?_modify]
  cases t.heap[q]? with
  | none => simp
  | some ses => split <;> rfl

theorem mem_itemsOf_set {t : SessionTable} {p : Nat} {ses : CSession}
    (found : t.heap[p]? = some ses)
    (name value : Str) (q vv : Nat) :
    vv ∈ itemsOf (t.setStringValue p name value) q ↔
      vv ∈ itemsOf t q ∨ q = p ∧ ses.get name = none ∧ vv = ses.heap.length := by
  unfold itemsOf
  rw [heap_setStringValue]
  by_cases same : p = q
  · subst same
    simp only [found, if_pos, Option.map_some, Option.getD_some, true_and, CSession.setStringValue]
    split
    · rename_i old here
      have member := (CSession.get_some here).1
      simp only [List.mem_append, List.mem_singleton, here, reduceCtorEq, false_and, or_false]
      exact or_iff_left_of_imp fun equal => equal ▸ member
    · rename_i missed
      simp [missed]
  · simp [same, Ne.symm same]

theorem heap_grows (ses : CSession) (name value : Str) :
    ses.heap.length ≤ (ses.setStringValue name value).heap.length := by
  unfold CSession.setStringValue
  split <;> simp

theorem formed_setStringValue {s : State} (formed : Formed s) (p : Nat) (name value : Str) :
    Formed { s with sessions := s.sessions.setStringValue p name value } := by
  refine { formed with listed := fun q member => ?_, items := fun q ses found vv member => ?_ }
  · exact (List.length_modify _ _ _).symm ▸ formed.listed q member
  · rw [heap_setStringValue] at found
    split at found
    · rename_i same
      obtain ⟨old, here, rfl⟩ := Option.map_eq_some_iff.mp found
      have inside := formed.items q old here
      unfold CSession.setStringValue at member ⊢
      split at member
      · rename_i again found'
        rw [List.mem_append, List.mem_singleton] at member
        have bound : vv < old.heap.length := member.elim (inside vv) fun equal =>
          equal ▸ inside _ (CSession.get_some found').1
        simpa using bound
      · rw [List.mem_append, List.mem_singleton] at member
        have before := inside vv
        simp only [List.length_append, List.length_singleton]
        rcases member with old' | rfl
        · exact Nat.lt_succ_of_lt (before old')
        · exact Nat.lt_succ_self _
    · exact formed.items q ses found vv member

theorem known_setStringValue {s : State} {o : Option Object} (p : Nat) (name value : Str)
    (known : s.Known o) :
    State.Known { s with sessions := s.sessions.setStringValue p name value } o := by
  rcases o with _ | o
  · exact known
  · cases o <;> first | exact known | skip
    · simpa [State.Known, SessionTable.setStringValue] using known
    · obtain ⟨ses, found, below⟩ := known
      simp only [State.Known, heap_setStringValue, found]
      split
      · exact ⟨_, rfl, Nat.lt_of_lt_of_le below (heap_grows ses name value)⟩
      · exact ⟨ses, rfl, below⟩

namespace Kept

variable {s s' : State} {own : List Happening}

theorem uses_server (kept : Kept s own) (standing : s.disposed = false) :
    ∀ o ∈ [some Object.server], Live own o :=
  List.forall_mem_singleton.mpr (kept.live_server.mpr standing)

theorem loadConfig (kept : Kept s own) (standing : s.disposed = false) (top : List Config.CNode) :
    Kept { s with configs := s.configs ++ [top], Config := some s.configs.length }
      (own ++ [some Object.server].map .used ++
        (some (.config s.configs.length) :: (places [] (.mk [] [] top)).map fun place =>
          some (.setting s.configs.length place)).map .made) := by
  have old : ∀ c < s.configs.length, (s.configs ++ [top]).getD c [] = s.configs.getD c [] := by
    intro c below
    rw [List.getD_append _ _ _ _ below]
  have new : (s.configs ++ [top]).getD s.configs.length [] = top := by simp
  refine kept.make (kept.uses_server standing) ?_ ?_ (fun books unmade => ?_) ?_ ?_
  · refine List.nodup_cons.mpr ⟨?_, places_perm _ _⟩
    simp
  · intro o member
    rcases List.mem_cons.mp member with rfl | setting
    · exact Nat.lt_irrefl _
    · obtain ⟨place, _, rfl⟩ := List.mem_map.mp setting
      exact Nat.lt_irrefl _
  · -- The configuration before is lost.
    refine (books.leave (fun _ o => State.Held { s with Config := none } () o) ?_ ?_ ?_).makes
      (i := ()) ?_ unmade ?_
    · intro _ o has
      rcases o with _ | o
      · exact has
      · cases o <;> simp_all [State.Held, State.Has]
    · intro o
      have inside := kept.formed.config
      rcases o with _ | o
      · simp [State.Held, State.Has, State.Lost]
      · cases o <;> simp [State.Held, State.Has, State.Lost, settingsOf, standing,
          -List.getD_eq_getElem?_getD]
        all_goals grind
    · intro o lost _ has
      rcases o with _ | o
      · exact lost
      · cases o <;> simp_all [State.Held, State.Has, State.Lost]
    · exact List.nodup_cons.mpr ⟨by simp, places_perm _ _⟩
    · intro _ o
      rcases o with _ | o
      · simp [State.Held, State.Has]
      · cases o <;> simp [State.Held, State.Has, settingsOf, standing, -List.getD_eq_getElem?_getD]
        all_goals grind
  · rintro o (known | member)
    · rcases o with _ | o
      · exact known
      · cases o <;> first | exact known | exact Nat.lt_succ_of_lt known | skip
        all_goals simp_all [State.Known]
        all_goals omega
    · rcases List.mem_cons.mp member with rfl | setting
      · simp [State.Known]
      · obtain ⟨place, _, rfl⟩ := List.mem_map.mp setting
        simp [State.Known]
  · exact ⟨fun c same => by simp_all, kept.formed.endpoints, kept.formed.directories,
      kept.formed.distinct, kept.formed.listed, kept.formed.items⟩

/-- One new object, which the server has from then on. -/
theorem gain (kept : Kept s own) {used : List (Option Object)} (alive : ∀ o ∈ used, Live own o)
    {o : Option Object} (fresh : ¬ s.Known o) (held : ∀ y, s'.Held () y ↔ s.Held () y ∨ y = o)
    (lost : ∀ y, s'.Lost y ↔ s.Lost y) (known : ∀ y, s.Known y → s'.Known y) (named : s'.Known o)
    (formed : Formed s') : Kept s' (own ++ used.map .used ++ [o].map .made) := by
  refine kept.make alive (List.nodup_singleton _) (List.forall_mem_singleton.mpr fresh)
    (fun books unmade => ?_) ?_ formed
  · refine (books.makes (i := ()) (List.nodup_singleton _) unmade fun _ y => ?_).congr
      (fun _ _ => Iff.rfl) lost
    rw [held, List.mem_singleton, eq_self, true_and]
  · rintro y (old | new)
    · exact known y old
    · exact List.mem_singleton.mp new ▸ named

/-- Where what the server has stays the same, so does what is lost. -/
theorem same (kept : Kept s own) (standing : s.disposed = false)
    (held : ∀ o, s'.Held () o ↔ s.Held () o) (lost : ∀ o, s'.Lost o ↔ s.Lost o)
    (known : ∀ o, s.Known o → s'.Known o) (formed : Formed s') :
    Kept s' (own ++ [some Object.server].map .used) :=
  ⟨(kept.use (kept.uses_server standing)).fine,
    (kept.books.uses _).congr (fun _ => held) lost,
    fun o made => known o ((kept.use (kept.uses_server standing)).known o made), formed⟩

theorem registerEndpoint_new (kept : Kept s own) (standing : s.disposed = false) :
    Kept { s with endpoints := s.endpoints + 1, Endpoints := s.Endpoints ++ [s.endpoints] }
      (own ++ [some (.endpoint s.endpoints)].map .made ++ [some Object.server].map .used) := by
  refine Kept.use ?_ ?_
  · rw [← List.append_nil own]
    have unused : ∀ o ∈ ([] : List (Option Object)), Live own o := List.forall_mem_nil _
    refine kept.gain unused (Nat.lt_irrefl _) (fun o => ?_) (fun _ => Iff.rfl) (fun o known => ?_)
      (Nat.lt_succ_self _) ?_
    · rcases o with _ | o
      · simp [State.Held, State.Has]
      · cases o <;> simp [State.Held, State.Has, standing]
    · rcases o with _ | o
      · exact known
      · cases o <;> first | exact known | exact Nat.lt_succ_of_lt known
    · refine { kept.formed with endpoints := fun e => ?_ }
      simp [kept.formed.endpoints]
      omega
  · rw [List.forall_mem_singleton]
    have alive := kept.live_server.mpr standing
    exact alive.append (by simp)

theorem registerEndpoint_old (kept : Kept s own) (standing : s.disposed = false) {e : Nat}
    (old : e < s.endpoints) :
    Kept { s with Endpoints := s.Endpoints ++ [e] } (own ++ [some Object.server].map .used) := by
  have there := (kept.formed.endpoints e).mpr old
  have members (d : Nat) : d ∈ s.Endpoints ++ [e] ↔ d ∈ s.Endpoints := by
    rw [List.mem_append, List.mem_singleton, or_iff_left_of_imp]
    rintro rfl
    exact there
  refine kept.same standing (fun o => ?_) (fun _ => Iff.rfl) (fun _ => id) ?_
  · rcases o with _ | o
    · exact Iff.rfl
    · cases o <;> first | exact Iff.rfl | exact and_congr_right fun _ => members _
  · refine { kept.formed with endpoints := fun d => ?_ }
    exact (members d).trans (kept.formed.endpoints d)

theorem addStaticDirectory (kept : Kept s own) (standing : s.disposed = false) :
    Kept { s with StaticEndpoints := s.StaticEndpoints ++ [s.StaticEndpoints.length] }
      (own ++ [some Object.server].map .used ++
        [some (.staticEndpoint s.StaticEndpoints.length)].map .made) := by
  refine kept.gain (kept.uses_server standing) (Nat.lt_irrefl _) (fun o => ?_) (fun _ => Iff.rfl)
    (fun o known => ?_) ?_ ?_
  · rcases o with _ | o
    · simp [State.Held, State.Has]
    · cases o <;> simp [State.Held, State.Has, standing]
  · rcases o with _ | o
    · exact known
    · cases o <;> first | exact known | skip
      simp only [State.Known, List.length_append, List.length_singleton] at known ⊢
      omega
  · simp [State.Known]
  · refine { kept.formed with directories := ?_ }
    rw [List.length_append, List.length_singleton, List.range_succ, ← kept.formed.directories]

theorem startSession (kept : Kept s own) (standing : s.disposed = false) (now : Nat) :
    Kept { s with sessions := s.sessions.startSession now }
      (own ++ [some Object.server].map .used ++
        [some (.session s.sessions.heap.length)].map .made) := by
  have items := itemsOf_startSession s.sessions now
  have inside := kept.formed.listed
  have within := @itemsOf_inside s.sessions
  refine kept.gain (kept.uses_server standing) (Nat.lt_irrefl _) (fun o => ?_) (fun o => ?_)
    (fun o known => ?_) ?_ ?_
  · rcases o with _ | o
    · simp [State.Held, State.Has]
    · cases o <;> simp only [State.Held, State.Has, items, standing]
      all_goals simp [SessionTable.startSession]
      all_goals grind
  · rcases o with _ | o
    · exact Iff.rfl
    · cases o <;> first | exact Iff.rfl | skip
      all_goals simp only [State.Lost, items]
      all_goals simp [SessionTable.startSession]
      all_goals grind
  · rcases o with _ | o
    · exact known
    · cases o <;> first | exact known | skip
      all_goals simp [State.Known, SessionTable.startSession] at known ⊢
      all_goals grind
  · simp [State.Known, SessionTable.startSession]
  · have fresh : s.sessions.heap.length ∉ s.sessions.Sessions := fun member =>
      Nat.lt_irrefl _ (kept.formed.listed _ member)
    refine { kept.formed with
      distinct := ?_, listed := fun p member => ?_, items := fun p ses found => ?_ }
    · exact (List.nodup_append_comm.mp (List.nodup_cons.mpr ⟨fresh, kept.formed.distinct⟩))
    · simp [SessionTable.startSession] at member ⊢
      grind
    · simp only [SessionTable.startSession, List.getElem?_append] at found
      split at found
      · exact kept.formed.items p ses found
      · have new := List.mem_of_getElem? found
        rw [List.mem_singleton] at new
        rw [new]
        exact List.forall_mem_nil _

theorem session_live (kept : Kept s own) (standing : s.disposed = false) {p : Nat}
    (below : p < s.sessions.heap.length) : Live own (some (.session p)) := by
  refine kept.live standing ?_
  by_cases listed : p ∈ s.sessions.Sessions
  · exact Or.inl listed
  · exact Or.inr ⟨below, listed⟩

theorem item_live (kept : Kept s own) (standing : s.disposed = false) {p vv : Nat}
    (member : vv ∈ itemsOf s.sessions p) : Live own (some (.item p vv)) := by
  refine kept.live standing ?_
  by_cases listed : p ∈ s.sessions.Sessions
  · exact Or.inl ⟨listed, member⟩
  · exact Or.inr ⟨listed, member⟩

/-- `getSession` and `destroySession` look at sessions that are listed. -/
theorem looked_live (kept : Kept s own) (standing : s.disposed = false) (id : Str) :
    ∀ o ∈ some Object.server :: (s.looked id).map (fun p => some (.session p)), Live own o := by
  intro o member
  rcases List.mem_cons.mp member with rfl | session
  · exact kept.live_server.mpr standing
  · obtain ⟨p, looked, rfl⟩ := List.mem_map.mp session
    exact kept.session_live standing (kept.formed.listed p (mem_upTo looked))

theorem get_live (kept : Kept s own) (standing : s.disposed = false) {p : Nat} {ses : CSession}
    (found : s.sessions.heap[p]? = some ses) (q : Nat → Bool) :
    ∀ o ∈ some (Object.session p) :: (upTo q ses.Items).map (fun vv => some (.item p vv)),
      Live own o := by
  intro o member
  rcases List.mem_cons.mp member with rfl | item
  · exact kept.session_live standing (List.getElem?_eq_some_iff.mp found).1
  · obtain ⟨vv, looked, rfl⟩ := List.mem_map.mp item
    refine kept.item_live standing ?_
    simpa [itemsOf, found] using mem_upTo looked

theorem destroySession (kept : Kept s own) (standing : s.disposed = false) (id : Str) :
    Kept { s with sessions := s.sessions.destroySession id }
      (own ++
        (some Object.server :: (s.looked id).map (fun p => some (.session p))).map .used) := by
  have used := kept.use (kept.looked_live standing id)
  have fewer : (s.sessions.destroySession id).Sessions.Sublist s.sessions.Sessions :=
    List.eraseP_sublist
  refine ⟨used.fine, used.books.leave _ ?_ ?_ ?_, fun o made => ?_, ?_⟩
  · intro _ o has
    rcases o with _ | o
    · exact has
    · cases o <;> first
        | exact has
        | exact ⟨has.1, fewer.subset has.2⟩
        | exact ⟨has.1, fewer.subset has.2.1, has.2.2⟩
  · intro o
    have inside := kept.formed.listed
    have stays := fewer.subset
    rcases o with _ | o
    · exact Iff.rfl
    · cases o <;> first | exact Iff.rfl | skip
      all_goals simp only [State.Held, State.Has, State.Lost, standing]
      all_goals simp [SessionTable.destroySession, itemsOf] at stays ⊢
      all_goals grind
  · intro o lost _ has
    rcases o with _ | o
    · exact lost
    · cases o <;> simp_all [State.Held, State.Has, State.Lost]
  · have known := used.known o made
    rcases o with _ | o
    · exact known
    · cases o <;> exact known
  · exact { kept.formed with
      distinct := kept.formed.distinct.sublist fewer
      listed := fun p member => kept.formed.listed p (fewer.subset member) }

/-- A name that is set again has its item, which is not made anew. -/
theorem setStringValue_old (kept : Kept s own) {p : Nat} {ses : CSession}
    (found : s.sessions.heap[p]? = some ses) {name : Str} {vv : Nat}
    (there : ses.get name = some vv)
    (value : Str) : Kept { s with sessions := s.sessions.setStringValue p name value } own := by
  have items (q w : Nat) : w ∈ itemsOf (s.sessions.setStringValue p name value) q ↔
      w ∈ itemsOf s.sessions q := by
    simp [mem_itemsOf_set found, there]
  refine ⟨kept.fine, kept.books.congr (fun _ o => ?_) fun o => ?_,
    fun o made => known_setStringValue p name value (kept.known o made),
    formed_setStringValue kept.formed p name value⟩
  all_goals
    rcases o with _ | o
    · exact Iff.rfl
    · cases o <;> first | exact Iff.rfl | skip
      all_goals simp only [State.Held, State.Has, State.Lost, items]
      all_goals simp [SessionTable.setStringValue]

theorem setStringValue_new (kept : Kept s own) (standing : s.disposed = false) {p : Nat}
    {ses : CSession} (found : s.sessions.heap[p]? = some ses) {name : Str} (missed : ses.get name = none)
    (value : Str) {used : List (Option Object)} (alive : ∀ o ∈ used, Live own o) :
    Kept { s with sessions := s.sessions.setStringValue p name value }
      (own ++ used.map .used ++ [some (.item p ses.heap.length)].map .made) := by
  have items (q w : Nat) : w ∈ itemsOf (s.sessions.setStringValue p name value) q ↔
      w ∈ itemsOf s.sessions q ∨ q = p ∧ w = ses.heap.length := by
    simp [mem_itemsOf_set found, missed]
  refine kept.make alive (List.nodup_singleton _) ?_ (fun books unmade => ?_) ?_
    (formed_setStringValue kept.formed p name value)
  · rw [List.forall_mem_singleton]
    rintro ⟨other, here, below⟩
    rw [found, Option.some.injEq] at here
    exact Nat.lt_irrefl _ (here ▸ below)
  · by_cases listed : p ∈ s.sessions.Sessions
    · refine (books.makes (i := ()) (List.nodup_singleton _) unmade fun _ o => ?_).congr
        (fun _ _ => Iff.rfl) fun o => ?_
      all_goals
        rcases o with _ | o
        · simp [State.Held, State.Has, State.Lost]
        · cases o <;> simp only [State.Held, State.Has, State.Lost, items, standing]
          all_goals simp [SessionTable.setStringValue]
          all_goals grind
    · refine Books.congr (show Books _ _ (State.Lost { s with sessions := _ }) from
        books.spoil (unmade _ List.mem_cons_self) fun o => ?_) (fun _ o => ?_) fun _ => Iff.rfl
      all_goals
        rcases o with _ | o
        · simp [State.Held, State.Has, State.Lost]
        · cases o <;> simp only [State.Held, State.Has, State.Lost, items, standing]
          all_goals simp [SessionTable.setStringValue]
          all_goals grind
  · rintro o (known | member)
    · exact known_setStringValue p name value known
    · rw [List.mem_singleton.mp member]
      refine ⟨_, by rw [heap_setStringValue, if_pos rfl, found]; rfl, ?_⟩
      simp [CSession.setStringValue, missed]

end Kept

end Solusek.Objects
