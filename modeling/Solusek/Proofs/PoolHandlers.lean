import Solusek.Model.Handlers
import Solusek.Proofs.ConnectionStrings
import Solusek.Proofs.PoolInvariant

/-!
# The handlers of the pool

Each handler that `CDatabase` makes owns one handle of the client library. What `open` calls on it is
settled by the connection string, and a handle that is closed is not used again.
-/

namespace Solusek.Handlers

open Transaction Database Transition

/-! ### Runs -/

inductive Call where
  | setConnectionString (cs : Str)
  | openInstance (now : Int) (answers : Answers)
  | dispose (id : Nat)
  | pass (now : Nat → Int)
  | closeAll

namespace Pool

variable (backend : Backend)

def next (p : Pool) : Call → Pool
  | .setConnectionString cs => { p with db := p.db.setConnectionString cs }
  | .openInstance now answers => (p.open backend now answers).2
  | .dispose id => { p with db := p.db.disposeInstance id }
  | .pass now => p.poolThread now
  | .closeAll => p.closeAll

def ids (p : Pool) : List Nat := p.db.Instances.map (·.ID)

/-- An instance is disposed while it is in the pool. -/
def Allowed (p : Pool) : Call → Prop
  | .dispose id => id ∈ p.ids
  | _ => True

def Step (p : Pool) (call : Call) (q : Pool) : Prop := p.Allowed call ∧ q = p.next backend call

end Pool

/-! ### Calls on one handle -/

def LibraryCall.handle : LibraryCall → Nat
  | connect C _ _ _ => C
  | selectDb C _ => C
  | construct C _ => C
  | close C => C

namespace Library

def callsOn (lib : Library) (C : Nat) : List LibraryCall := lib.calls.filter (·.handle = C)

def closes (lib : Library) (C : Nat) : Nat := lib.calls.count (.close C)

theorem callsOn_call (lib : Library) (call : LibraryCall) (C : Nat) :
    (lib.call call).callsOn C = lib.callsOn C ++ if call.handle = C then [call] else [] := by
  unfold callsOn Library.call
  rw [List.filter_append, List.filter_singleton]
  by_cases same : call.handle = C <;> simp [same]

theorem closes_call (lib : Library) (call : LibraryCall) (C : Nat) :
    (lib.call call).closes C = lib.closes C + if call = .close C then 1 else 0 := by
  unfold closes Library.call
  rw [List.count_append, List.count_singleton]
  by_cases same : call = .close C <;> simp [same]

theorem closes_callsOn (lib : Library) (C : Nat) :
    lib.closes C = (lib.callsOn C).count (.close C) := by
  unfold closes callsOn
  rw [List.count_filter]
  exact decide_eq_true rfl

end Library

/-- The calls of an `open` that goes well. -/
def opening (backend : Backend) (ConnectionString : Str) (C : Nat) : List LibraryCall :=
  match backend, target ConnectionString with
  | .mysql, .ok (some t) =>
    [.connect C (cstr t.host) (cstr t.username) (cstr t.password), .selectDb C (cstr t.dbname)]
  | .mysql, _ => []
  | .pqxx, _ => [.construct C (cstr ConnectionString)]

/-- The `open` of a new instance makes a handle, and fails. -/
def Spoils (backend : Backend) (ConnectionString : Str) (answers : Answers) : Prop :=
  backend = .mysql ∧ (∃ t, target ConnectionString = .ok (some t)) ∧ answers.init = true ∧
    (answers.connect && answers.select) = false

/-! ### One handler -/

/-- All that the `open` of a new instance can do. -/
theorem open_cases (backend : Backend) (ConnectionString : Str) (answers : Answers)
    (lib : Library) :
    (CDatabaseHandler.open backend { ConnectionString } answers lib =
        (.ok false, { ConnectionString }, lib) ∧ ¬ Spoils backend ConnectionString answers) ∨
    ∃ connected calls, (connected = true → calls = opening backend ConnectionString lib.made) ∧
      (connected = false ↔ Spoils backend ConnectionString answers) ∧
      (∀ call ∈ calls, call.handle = lib.made ∧ call ≠ .close lib.made) ∧
      CDatabaseHandler.open backend { ConnectionString } answers lib =
        (.ok connected, { C := some lib.made, ConnectionString },
          { made := lib.made + 1, calls := lib.calls ++ calls }) := by
  cases backend with
  | pqxx =>
    cases connects : answers.connect with
    | false =>
      refine Or.inl ⟨?_, fun spoils => nomatch spoils.1⟩
      simp [CDatabaseHandler.open, CDatabaseHandler.openPqxx, connects]
    | true =>
      refine Or.inr ⟨true, [.construct lib.made (cstr ConnectionString)], fun _ => rfl,
        ⟨nofun, fun spoils => nomatch spoils.1⟩, ?_, ?_⟩
      · exact List.forall_mem_singleton.mpr ⟨rfl, nofun⟩
      · simp [CDatabaseHandler.open, CDatabaseHandler.openPqxx, connects, Library.call]
  | mysql =>
    obtain ⟨t, read⟩ := target_total ConnectionString
    unfold CDatabaseHandler.open CDatabaseHandler.openMysql opening Spoils
    simp only [read]
    cases t with
    | none => exact Or.inl ⟨rfl, fun spoils => by obtain ⟨_, ⟨t, same⟩, _⟩ := spoils; cases same⟩
    | some t =>
      cases init : answers.init with
      | false => exact Or.inl ⟨rfl, fun spoils => nomatch spoils.2.2.1⟩
      | true =>
        right
        cases connects : answers.connect with
        | false =>
          refine ⟨false, [.connect lib.made (cstr t.host) (cstr t.username) (cstr t.password)],
            nofun, ?_, ?_, rfl⟩
          · simp
          · exact List.forall_mem_singleton.mpr ⟨rfl, nofun⟩
        | true =>
          refine ⟨answers.select, [.connect lib.made (cstr t.host) (cstr t.username)
            (cstr t.password), .selectDb lib.made (cstr t.dbname)], fun _ => rfl, ?_, ?_, ?_⟩
          · simp
          · intro call member
            rcases List.mem_cons.mp member with rfl | last
            · exact ⟨rfl, nofun⟩
            · rw [List.mem_singleton.mp last]
              exact ⟨rfl, nofun⟩
          · simp [Library.call]

/-! ### The books -/

/-- No two instances have one handle, and every handle that no instance has is closed, once. -/
structure Books (p : Pool) : Prop where
  keys : (p.handlers.map Prod.fst).Nodup
  apart : ∀ it ∈ p.handlers, ∀ it' ∈ p.handlers, ∀ C,
    it.2.C = some C → it'.2.C = some C → it = it'
  held : ∀ it ∈ p.handlers, ∀ C, it.2.C = some C → C < p.lib.made ∧ p.lib.closes C = 0
  rest : ∀ C < p.lib.made, (∃ it ∈ p.handlers, it.2.C = some C) ∨ p.lib.closes C = 1
  fresh : ∀ C, p.lib.made ≤ C → p.lib.callsOn C = []

theorem books_new : Books .new where
  keys := List.nodup_nil
  apart _ member := absurd member List.not_mem_nil
  held _ member := absurd member List.not_mem_nil
  rest _ below := absurd below (Nat.not_lt_zero _)
  fresh _ _ := rfl

theorem handler_some {p : Pool} {id : Nat} {H : CDatabaseHandler} (found : p.handler id = some H) :
    (id, H) ∈ p.handlers := by
  obtain ⟨it, here, rfl⟩ := Option.map_eq_some_iff.mp found
  obtain rfl : it.1 = id := by simpa using List.find?_some here
  exact List.mem_of_find?_eq_some here

theorem handler_of_mem {p : Pool} (keys : (p.handlers.map Prod.fst).Nodup) {id : Nat}
    {H : CDatabaseHandler} (member : (id, H) ∈ p.handlers) : p.handler id = some H := by
  cases found : p.handler id with
  | none =>
    have missing := List.find?_eq_none.mp (Option.map_eq_none_iff.mp found) _ member
    simp at missing
  | some H' =>
    have same := List.inj_on_of_nodup_map keys member (handler_some found) rfl
    rw [(Prod.mk.inj same).2]

/-- `~CDatabaseInstance` closes the handle of its instance, and nothing else. -/
theorem delete_books {p : Pool} (books : Books p) (id : Nat) :
    Books (p.delete id) ∧ (p.delete id).db = p.db ∧
    (p.delete id).handlers = p.handlers.filter (fun it => it.1 ≠ id) ∧
    ∀ it ∈ (p.delete id).handlers, ∀ C, it.2.C = some C →
      (p.delete id).lib.callsOn C = p.lib.callsOn C := by
  unfold Pool.delete
  cases found : p.handler id with
  | none =>
    have missing : ∀ it ∈ p.handlers, it.1 ≠ id := fun it member same => by
      rw [← same, handler_of_mem books.keys member] at found
      cases found
    refine ⟨books, rfl, ?_, fun _ _ _ _ => rfl⟩
    exact (List.filter_eq_self.mpr fun it member => decide_eq_true (missing it member)).symm
  | some H =>
    have own := handler_some found
    have kept {it : Nat × CDatabaseHandler} (member : it ∈ p.handlers.filter (·.1 != id)) :
        it ∈ p.handlers ∧ it.1 ≠ id := by simpa using member
    have keys : ((p.handlers.filter (·.1 != id)).map Prod.fst).Nodup :=
      books.keys.sublist ((List.filter_sublist).map Prod.fst)
    have apart : ∀ it ∈ p.handlers.filter (·.1 != id), ∀ it' ∈ p.handlers.filter (·.1 != id),
        ∀ C, it.2.C = some C → it'.2.C = some C → it = it' := fun it member it' member' =>
      books.apart it (kept member).1 it' (kept member').1
    have filtered : p.handlers.filter (fun it => it.1 != id) =
        p.handlers.filter (fun it => it.1 ≠ id) := by
      congr 1
      funext it
      simp [bne, Bool.beq_eq_decide_eq]
    cases handle : H.C with
    | none =>
      have still : (H.close p.lib).2 = p.lib := by simp [CDatabaseHandler.close, handle]
      simp only [still]
      refine ⟨⟨keys, apart, fun it member => books.held it (kept member).1, fun C below => ?_,
        books.fresh⟩, trivial, filtered, fun _ _ _ _ => trivial⟩
      rcases books.rest C below with ⟨it, member, has⟩ | closed
      · refine Or.inl ⟨it, ?_, has⟩
        have other : it.1 ≠ id := fun same => by
          obtain rfl := List.inj_on_of_nodup_map books.keys member own same
          rw [handle] at has
          cases has
        simpa using ⟨member, other⟩
      · exact Or.inr closed
    | some D =>
      have closes : (H.close p.lib).2 = p.lib.call (.close D) := by
        simp [CDatabaseHandler.close, handle]
      obtain ⟨below, unclosed⟩ := books.held _ own D handle
      have other {it : Nat × CDatabaseHandler} (member : it ∈ p.handlers.filter (·.1 != id))
          {C : Nat} (has : it.2.C = some C) : D ≠ C := by
        rintro rfl
        exact (kept member).2 (congrArg Prod.fst (books.apart it (kept member).1 _ own D has handle))
      simp only [closes]
      refine ⟨⟨keys, apart, fun it member C has => ?_, fun C made => ?_, fun C late => ?_⟩, trivial,
        filtered, fun it member C has => ?_⟩
      · obtain ⟨bound, unclosed⟩ := books.held it (kept member).1 C has
        refine ⟨bound, ?_⟩
        rw [Library.closes_call, unclosed, if_neg]
        exact fun same => other member has (LibraryCall.close.inj same)
      · rw [Library.closes_call]
        by_cases same : D = C
        · subst same
          exact Or.inr (by rw [unclosed, if_pos rfl])
        · rw [if_neg (fun equal => same (LibraryCall.close.inj equal)), Nat.add_zero]
          rcases books.rest C made with ⟨it, member, has⟩ | closed
          · refine Or.inl ⟨it, ?_, has⟩
            have outside : it.1 ≠ id := fun key => by
              obtain rfl := List.inj_on_of_nodup_map books.keys member own key
              rw [handle] at has
              exact same (Option.some.inj has)
            simpa using ⟨member, outside⟩
          · exact Or.inr closed
      · have apart : (LibraryCall.close D).handle ≠ C := by
          show D ≠ C
          have bound : p.lib.made ≤ C := late
          omega
        rw [Library.callsOn_call, books.fresh C late, if_neg apart, List.append_nil]
      · have apart : (LibraryCall.close D).handle ≠ C := other member has
        rw [Library.callsOn_call, if_neg apart, List.append_nil]

/-- The same for several instances. -/
theorem deletes_books {p : Pool} (books : Books p) (gone : List Nat) :
    Books (gone.foldl Pool.delete p) ∧ (gone.foldl Pool.delete p).db = p.db ∧
    (gone.foldl Pool.delete p).handlers = p.handlers.filter (fun it => it.1 ∉ gone) ∧
    ∀ it ∈ (gone.foldl Pool.delete p).handlers, ∀ C, it.2.C = some C →
      (gone.foldl Pool.delete p).lib.callsOn C = p.lib.callsOn C := by
  induction gone generalizing p with
  | nil => exact ⟨books, rfl, by simp, fun _ _ _ _ => rfl⟩
  | cons id gone ih =>
    obtain ⟨books', db, handlers, calls⟩ := delete_books books id
    obtain ⟨last, db', handlers', calls'⟩ := ih books'
    refine ⟨last, db'.trans db, ?_, fun it member C has => ?_⟩
    · rw [List.foldl_cons, handlers', handlers, List.filter_filter]
      congr 1
      funext it
      simp [Bool.and_comm]
    · have before : it ∈ (p.delete id).handlers := by
        rw [List.foldl_cons, handlers'] at member
        exact (List.mem_filter.mp member).1
      rw [List.foldl_cons, calls' it member C has, calls it before C has]

end Solusek.Handlers
