import Solusek.Model.Tls

/-!
# What is handed to the TLS library

The calls on the library as a log of what is made, used and freed, and which socket has what.
-/

namespace Solusek.Tls

open Lifetimes
open Lifetimes.Event (made used released)

/-! ### The log -/

inductive Object where
  | context (ctx : Nat)
  | connection (ssl : Nat)
  deriving DecidableEq, Repr

/-- Behind a null pointer there is no object. -/
def LibraryCall.events : LibraryCall → List (Event Object)
  | newContext ctx => [made (.context ctx)]
  | setContext ctx | useObject ctx _ => ((ctx.map .context).toList).map used
  | newConnection ssl ctx => ((ctx.map .context).toList).map used ++ [made (.connection ssl)]
  | setFd ssl _ | accept ssl | connect ssl => [used (.connection ssl)]
  | switchContext ssl ctx => [used (.connection ssl), used (.context ctx)]
  | setHostName ssl | getPeerCertificate ssl | read ssl | write ssl =>
    ((ssl.map .connection).toList).map used
  | freeConnection ssl => [released (.connection ssl)]
  | freeContext ctx => [released (.context ctx)]
  | parsePKCS12 _ => []

def LibraryCall.handsNull : LibraryCall → Bool
  | setContext ctx | newConnection _ ctx => ctx.isNone
  | useObject ctx data => ctx.isNone || data.isNone
  | setHostName ssl | getPeerCertificate ssl | read ssl | write ssl => ssl.isNone
  | parsePKCS12 there => !there
  | newContext _ | setFd _ _ | accept _ | connect _ | switchContext _ _ | freeConnection _
  | freeContext _ => false

def Library.log (lib : Library) : List (Event Object) := lib.calls.flatMap LibraryCall.events

/-- How often the library has been handed a null pointer. -/
def Library.nulls (lib : Library) : Nat := lib.calls.countP LibraryCall.handsNull

@[simp] theorem log_call (lib : Library) (call : LibraryCall) :
    (lib.call call).log = lib.log ++ call.events := by
  simp [Library.log, Library.call]

@[simp] theorem nulls_call (lib : Library) (call : LibraryCall) :
    (lib.call call).nulls = lib.nulls + if call.handsNull then 1 else 0 := by
  simp [Library.nulls, Library.call, List.countP_singleton]

@[simp] theorem call_contexts (lib : Library) (call : LibraryCall) :
    (lib.call call).contexts = lib.contexts := rfl

@[simp] theorem call_connections (lib : Library) (call : LibraryCall) :
    (lib.call call).connections = lib.connections := rfl

theorem log_newContext (lib : Library) :
    lib.newContext.log = lib.log ++ [made (.context lib.contexts)] ++
      [Object.context lib.contexts].map used := by
  unfold Library.newContext
  rw [log_call, log_call]
  rfl

theorem log_newSSL (lib : Library) (ctx : Nat) (sid : Int) :
    (lib.newSSL (some ctx) sid).log = lib.log ++ [Object.context ctx].map used ++
      [made (.connection lib.connections)] ++ [Object.connection lib.connections].map used := by
  unfold Library.newSSL
  rw [log_call, log_call, List.append_assoc lib.log]
  rfl

theorem log_serveName (lib : Library) (ssl : Nat) :
    (lib.serveName ssl).log = lib.log ++ [made (.context lib.contexts)] ++
      [Object.context lib.contexts, .connection ssl, .context lib.contexts,
        .context lib.contexts].map used := by
  unfold Library.serveName
  rw [log_call, log_call, log_newContext]
  simp [LibraryCall.events]

/-! ### Who has what -/

def CNetHandlerSocket.Has (s : CNetHandlerSocket) : Object → Prop
  | .connection ssl => s.SSL = some ssl
  | .context ctx => s.CTXRoot = true ∧ s.CTX = some ctx

def Program.Held (p : Program) (n : Nat) (o : Object) : Prop :=
  ∃ s, p.sockets n = some s ∧ s.Has o

/-- The contexts that the callback has made. -/
def Library.Lost (lib : Library) (o : Object) : Prop :=
  ∃ ssl ctx, LibraryCall.switchContext ssl ctx ∈ lib.calls ∧ o = .context ctx

/-- A socket with TLS has a context of its own, or one that is not its own; others have none. -/
structure CNetHandlerSocket.Fit (s : CNetHandlerSocket) : Prop where
  secure : s.SSLEnabled = true → s.CTXRoot = true → s.CTX.isSome
  plain : s.SSLEnabled = false → s.CTX = none ∧ s.ChildCTX = none ∧ s.SSL = none

structure Sound (p : Program) : Prop where
  fine : Each Fine [] p.lib.log
  books : Books p.lib.log p.Held p.lib.Lost
  contexts : ∀ ctx, made (.context ctx) ∈ p.lib.log ↔ ctx < p.lib.contexts
  connections : ∀ ssl, made (.connection ssl) ∈ p.lib.log ↔ ssl < p.lib.connections
  fit : ∀ {n s}, p.sockets n = some s → s.Fit
  fresh : ∀ n, p.made ≤ n → p.sockets n = none

/-! ### One socket at a time -/

theorem held_put (p : Program) (n m : Nat) (result : CNetHandlerSocket × Library)
    (o : Object) :
    (p.put n result).Held m o ↔ m = n ∧ result.1.Has o ∨ m ≠ n ∧ p.Held m o := by
  unfold Program.Held Program.put
  by_cases same : m = n
  · subst same
    simp
  · simp [same]

theorem held_here {p : Program} {n : Nat} {s : CNetHandlerSocket} (here : p.sockets n = some s)
    (o : Object) : p.Held n o ↔ s.Has o := by
  simp [Program.Held, here]

theorem put_here (p : Program) (n : Nat) (result : CNetHandlerSocket × Library) :
    (p.put n result).sockets n = some result.1 := by
  simp [Program.put]

theorem put_put (p : Program) (n : Nat) (result result' : CNetHandlerSocket × Library) :
    (p.put n result).put n result' = p.put n result' := by
  simp [Program.put]

theorem fit_put {p : Program} (fits : ∀ {m s}, p.sockets m = some s → s.Fit)
    {result : CNetHandlerSocket × Library} (fit : result.1.Fit) {n m : Nat} {t : CNetHandlerSocket}
    (there : (p.put n result).sockets m = some t) : t.Fit := by
  by_cases same : m = n
  · subst same
    obtain rfl : result.1 = t := Option.some.inj ((put_here p m result).symm.trans there)
    exact fit
  · exact @fits m t (by simpa [Program.put, same] using there)

theorem fresh_put {p : Program} (fresh : ∀ m, p.made ≤ m → p.sockets m = none) {n : Nat}
    (below : n < p.made) (result : CNetHandlerSocket × Library) (m : Nat) (above : p.made ≤ m) :
    (p.put n result).sockets m = none := by
  have other : m ≠ n := by omega
  simpa [Program.put, other] using fresh m above

theorem fresh_add {p : Program} (fresh : ∀ m, p.made ≤ m → p.sockets m = none)
    (result : CNetHandlerSocket × Library) (m : Nat) (above : p.made + 1 ≤ m) :
    (p.add result).sockets m = none := by
  have other : m ≠ p.made := by omega
  simpa [Program.add, Program.put, other] using fresh m (by omega)

theorem lost_call {lib : Library} {call : LibraryCall}
    (other : ∀ ssl ctx, call ≠ .switchContext ssl ctx) (o : Object) :
    (lib.call call).Lost o ↔ lib.Lost o := by
  have only (ssl ctx : Nat) : LibraryCall.switchContext ssl ctx ∈ (lib.call call).calls ↔
      LibraryCall.switchContext ssl ctx ∈ lib.calls := by
    simp [Library.call, (other ssl ctx).symm]
  simp only [Library.Lost, only]

theorem lost_newContext (lib : Library) (o : Object) :
    lib.newContext.Lost o ↔ lib.Lost o := by
  simp [Library.Lost, Library.newContext, Library.call]

theorem lost_newSSL (lib : Library) (CTX : Option Nat) (sid : Int) (o : Object) :
    (lib.newSSL CTX sid).Lost o ↔ lib.Lost o := by
  simp [Library.Lost, Library.newSSL, Library.call]

theorem lost_serveName (lib : Library) (ssl : Nat) (o : Object) :
    (lib.serveName ssl).Lost o ↔ lib.Lost o ∨ o = .context lib.contexts := by
  have only (x c : Nat) : LibraryCall.switchContext x c ∈ (lib.serveName ssl).calls ↔
      LibraryCall.switchContext x c ∈ lib.calls ∨ x = ssl ∧ c = lib.contexts := by
    simp [Library.serveName, Library.newContext, Library.call]
  simp only [Library.Lost, only]
  constructor
  · rintro ⟨x, c, old | ⟨rfl, rfl⟩, rfl⟩
    · exact Or.inl ⟨x, c, old, rfl⟩
    · exact Or.inr rfl
  · rintro (⟨x, c, old, rfl⟩ | rfl)
    · exact ⟨x, c, Or.inl old, rfl⟩
    · exact ⟨ssl, lib.contexts, Or.inr ⟨rfl, rfl⟩, rfl⟩

end Solusek.Tls
