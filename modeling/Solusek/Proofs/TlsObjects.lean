import Solusek.Proofs.TlsLog

/-!
# Contexts and connections

Whatever a program does with its sockets, each connection of the TLS library is with one socket
until it is freed, and only the contexts that the server name callback makes are left behind.
-/

namespace Solusek.Tls

open Lifetimes
open Lifetimes.Event (made used released)

namespace Sound

variable {p : Program} {n : Nat} {s s' : CNetHandlerSocket}

theorem below (sound : Sound p) (here : p.sockets n = some s) : n < p.made := by
  by_contra above
  have gone := sound.fresh n (Nat.le_of_not_lt above)
  rw [here] at gone
  cases gone

theorem unused (sound : Sound p) (o : Object) : ¬ p.Held p.made o := by
  rintro ⟨t, there, _⟩
  exact absurd (sound.below there) (Nat.lt_irrefl _)

theorem put (sound : Sound p) (here : p.sockets n = some s)
    {result : CNetHandlerSocket × Library} (fit : result.1.Fit) (fine : Each Fine [] result.2.log)
    (books : Books result.2.log (p.put n result).Held result.2.Lost)
    (contexts : ∀ ctx, made (.context ctx) ∈ result.2.log ↔ ctx < result.2.contexts)
    (connections : ∀ ssl, made (.connection ssl) ∈ result.2.log ↔ ssl < result.2.connections) :
    Sound (p.put n result) :=
  ⟨fine, books, contexts, connections, fit_put sound.fit fit,
    fresh_put sound.fresh (sound.below here) result⟩

/-- A socket that keeps what it has. -/
theorem same (sound : Sound p) (here : p.sockets n = some s) (fit : s'.Fit)
    (has : ∀ o, s'.Has o ↔ s.Has o) : Sound (p.put n (s', p.lib)) := by
  refine sound.put here fit sound.fine (sound.books.congr (fun m o => ?_) fun _ => Iff.rfl)
    sound.contexts sound.connections
  rw [held_put]
  by_cases same : m = n
  · subst same
    simp [held_here here, has]
  · simp [same]

/-- The library uses what the socket has. -/
theorem use (sound : Sound p) (here : p.sockets n = some s) (fit : s'.Fit)
    (has : ∀ o, s'.Has o ↔ s.Has o) {call : LibraryCall} {l : List Object}
    (uses : call.events = l.map used) (own : ∀ o ∈ l, s.Has o)
    (other : ∀ ssl ctx, call ≠ .switchContext ssl ctx) : Sound (p.put n (s', p.lib.call call)) := by
  have kept := sound.same here fit has
  refine sound.put here fit ?_ ?_ ?_ ?_
  · rw [log_call, uses, each_append, List.nil_append, each_fine_uses]
    exact ⟨sound.fine, fun o member => sound.books.live ((held_here here o).mpr (own o member))⟩
  · rw [log_call, uses]
    exact (kept.books.uses l).congr (fun _ _ => Iff.rfl) (lost_call other)
  · intro ctx
    simpa [uses] using sound.contexts ctx
  · intro ssl
    simpa [uses] using sound.connections ssl

theorem own_context (sound : Sound p) (here : p.sockets n = some s) (secure : s.SSLEnabled = true)
    (root : s.CTXRoot = true) : ∃ ctx, s.CTX = some ctx :=
  Option.isSome_iff_exists.mp ((sound.fit here).secure secure root)

/-- A connection is made, and is with the socket. -/
theorem newSSL (sound : Sound p) (here : p.sockets n = some s) (secure : s.SSLEnabled = true)
    (root : s.CTXRoot = true) (free : s.SSL = none) (sid : Int) :
    Sound (p.put n ({ s with SSL := some p.lib.connections }, p.lib.newSSL s.CTX sid)) := by
  obtain ⟨ctx, own⟩ := sound.own_context here secure root
  have alive : Live p.lib.log (.context ctx) :=
    sound.books.live ((held_here here _).mpr ⟨root, own⟩)
  have unmade : made (.connection p.lib.connections) ∉ p.lib.log := fun there =>
    absurd ((sound.connections _).mp there) (Nat.lt_irrefl _)
  have log := log_newSSL p.lib ctx sid
  have gets : ∀ m o,
      (p.put n ({ s with SSL := some p.lib.connections }, p.lib.newSSL s.CTX sid)).Held m o ↔
        p.Held m o ∨ m = n ∧ o = .connection p.lib.connections := by
    intro m o
    rw [held_put]
    by_cases same : m = n
    · subst same
      rw [held_here here]
      cases o with
      | context => simp [CNetHandlerSocket.Has]
      | connection ssl =>
        simp only [CNetHandlerSocket.Has, free, Option.some.injEq, Object.connection.injEq]
        grind
    · simp [same]
  rw [own] at gets ⊢
  have books := (sound.books.uses [.context ctx]).make (by simpa using unmade) gets
  have fresh := books.live ((gets n _).mpr (Or.inr ⟨rfl, rfl⟩))
  refine sound.put here ⟨fun _ _ => rfl, fun plain => ?_⟩ ?_
    (log ▸ (books.uses _).congr (fun _ _ => Iff.rfl) (lost_newSSL p.lib _ sid)) ?_ ?_
  · rw [secure] at plain
    cases plain
  · rw [log, each_append, each_append, each_append, List.nil_append, each_fine_uses,
      each_fine_uses]
    refine ⟨⟨⟨sound.fine, ?_⟩, ⟨?_, trivial⟩, trivial⟩, ?_⟩
    · exact List.forall_mem_singleton.mpr alive
    · simpa [Tidy] using unmade
    · exact List.forall_mem_singleton.mpr fresh
  · intro c
    rw [log]
    simpa [Library.newSSL] using sound.contexts c
  · intro x
    rw [log]
    simpa [Library.newSSL, sound.connections, eq_comm] using Nat.lt_succ_iff_lt_or_eq.symm

/-- Where the callback knows the name, it makes a context that is nobody's. -/
theorem sniCallback (sound : Sound p) (here : p.sockets n = some s) {ssl : Nat}
    (has : s.SSL = some ssl) (secure : s.SSLEnabled = true) (hello : Option Str) :
    Sound (p.put n (s.sniCallback ssl hello p.lib)) := by
  have idle : Sound (p.put n (s, p.lib)) := sound.same here (sound.fit here) fun _ => Iff.rfl
  unfold CNetHandlerSocket.sniCallback
  cases hello with
  | none => exact idle
  | some cname =>
    dsimp only
    split
    · have unmade : made (.context p.lib.contexts) ∉ p.lib.log := fun there =>
        absurd ((sound.contexts _).mp there) (Nat.lt_irrefl _)
      have log := log_serveName p.lib ssl
      have fit : (s.setChildCTX (some p.lib.contexts)).Fit :=
        ⟨(sound.fit here).secure, fun plain => absurd (secure.symm.trans plain) nofun⟩
      have books := (sound.same here fit fun _ => Iff.rfl).books.spoil unmade
        (lost_serveName p.lib ssl)
      have fresh := (books.live_iff _).mpr (Or.inr ((lost_serveName p.lib ssl _).mpr (Or.inr rfl)))
      have still := @Books.live _ _ _ _ _ books n (.connection ssl)
        ((held_put _ _ _ _ _).mpr (Or.inl ⟨rfl, has⟩))
      refine sound.put here fit ?_ (log ▸ books.uses _) (fun c => ?_) fun x => ?_
      · rw [log, each_append, each_append, List.nil_append, each_fine_uses]
        refine ⟨⟨sound.fine, ⟨unmade, trivial⟩, trivial⟩, ?_⟩
        simpa using ⟨fresh, still, fresh⟩
      · rw [log]
        simpa [Library.serveName, Library.newContext, sound.contexts, eq_comm] using
          Nat.lt_succ_iff_lt_or_eq.symm
      · rw [log]
        simpa [Library.serveName, Library.newContext] using sound.connections x
    · exact idle

/-- The new socket of `accept` takes the connection over. -/
theorem handOver (sound : Sound p) (here : p.sockets n = some s) {sock : CNetHandlerSocket}
    (left : ({ s with SSL := none } : CNetHandlerSocket).Fit) (fit : sock.Fit)
    (takes : sock.SSL = s.SSL) (borrows : sock.CTXRoot = true → sock.CTX = none) :
    Sound ((p.put n ({ s with SSL := none }, p.lib)).add (sock, p.lib)) := by
  have apart := (sound.below here).ne
  have held (m : Nat) (o : Object) :
      ((p.put n ({ s with SSL := none }, p.lib)).add (sock, p.lib)).Held m o ↔
        m = p.made ∧ sock.Has o ∨ m ≠ p.made ∧
          (m = n ∧ ({ s with SSL := none } : CNetHandlerSocket).Has o ∨ m ≠ n ∧ p.Held m o) := by
    have first := held_put (p.put n ({ s with SSL := none }, p.lib)) p.made m (sock, p.lib) o
    rw [held_put p n m] at first
    exact first
  have moved (m ssl : Nat) :
      ((p.put n ({ s with SSL := none }, p.lib)).add (sock, p.lib)).Held m
        (.connection ssl) ↔ m = p.made ∧ p.Held n (.connection ssl) ∨
          m ≠ n ∧ p.Held m (.connection ssl) := by
    have nobody := sound.unused (.connection ssl)
    rw [held, held_here here]
    simp only [CNetHandlerSocket.Has, takes]
    grind
  have stays (m ctx : Nat) :
      ((p.put n ({ s with SSL := none }, p.lib)).add (sock, p.lib)).Held m
        (.context ctx) ↔ p.Held m (.context ctx) := by
    have nobody := sound.unused (.context ctx)
    have own := held_here here (.context ctx)
    rw [held]
    simp only [CNetHandlerSocket.Has] at own ⊢
    grind
  refine ⟨sound.fine, sound.books.hand ?_ ?_, sound.contexts, sound.connections,
    fit_put (fit_put sound.fit left) fit,
    fresh_add (fresh_put sound.fresh (sound.below here) _) _⟩
  · intro i j o one two
    match o with
    | .context ctx => exact sound.books.alone ((stays i ctx).mp one) ((stays j ctx).mp two)
    | .connection ssl =>
      rcases (moved i ssl).mp one with ⟨rfl, has⟩ | ⟨other, has⟩ <;>
        rcases (moved j ssl).mp two with ⟨rfl, has'⟩ | ⟨other', has'⟩
      · rfl
      · exact absurd (sound.books.alone has' has) other'
      · exact absurd (sound.books.alone has has') other
      · exact sound.books.alone has has'
  · intro o
    match o with
    | .context ctx => simp only [stays]
    | .connection ssl =>
      simp only [moved]
      constructor
      · rintro ⟨i, ⟨_, has⟩ | ⟨_, has⟩⟩
        · exact ⟨n, has⟩
        · exact ⟨i, has⟩
      · rintro ⟨i, has⟩
        by_cases same : i = n
        · exact ⟨p.made, Or.inl ⟨rfl, same ▸ has⟩⟩
        · exact ⟨i, Or.inr ⟨same, has⟩⟩

theorem create (sound : Sound p) (ssl : Bool) (sock : Int) :
    Sound (p.add (CNetHandlerSocket.new 0 sock ssl false none none p.lib)) := by
  have nobody := sound.unused
  cases ssl with
  | false =>
    refine ⟨sound.fine, sound.books.congr (fun m o => ?_) fun _ => Iff.rfl, sound.contexts,
      sound.connections,
      fit_put sound.fit ⟨fun secure => absurd secure Bool.false_ne_true, fun _ => ⟨rfl, rfl, rfl⟩⟩,
      fresh_add sound.fresh _⟩
    refine (held_put p p.made m _ o).trans ?_
    by_cases same : m = p.made
    · subst same
      rcases o with _ | _ <;> simp [CNetHandlerSocket.new, CNetHandlerSocket.Has, nobody]
    · simp [same]
  | true =>
    have unmade : made (.context p.lib.contexts) ∉ p.lib.log := fun there =>
      absurd ((sound.contexts _).mp there) (Nat.lt_irrefl _)
    have log := log_newContext p.lib
    have gets : ∀ m o, (p.add (CNetHandlerSocket.new 0 sock true false none none p.lib)).Held m o ↔
        p.Held m o ∨ m = p.made ∧ o = .context p.lib.contexts := by
      intro m o
      refine (held_put p p.made m _ o).trans ?_
      by_cases same : m = p.made
      · subst same
        rcases o with _ | _ <;> simp [CNetHandlerSocket.new, CNetHandlerSocket.setupSSL,
          CNetHandlerSocket.Has, nobody, eq_comm]
      · simp [same]
    have books := sound.books.make unmade gets
    have fresh := books.live ((gets _ _).mpr (Or.inr ⟨rfl, rfl⟩))
    refine ⟨?_, ?_, fun c => ?_, fun x => ?_, fit_put sound.fit
      ⟨fun _ _ => rfl, fun plain => absurd plain.symm Bool.false_ne_true⟩,
      fresh_add sound.fresh _⟩
    · show Each Fine [] p.lib.newContext.log
      rw [log, each_append, each_append, List.nil_append, each_fine_uses]
      exact ⟨⟨sound.fine, ⟨unmade, trivial⟩, trivial⟩, List.forall_mem_singleton.mpr fresh⟩
    · exact (log ▸ books.uses _ : Books p.lib.newContext.log _ _).congr (fun _ _ => Iff.rfl)
        (lost_newContext p.lib)
    · show _ ∈ p.lib.newContext.log ↔ _
      rw [log]
      simpa [CNetHandlerSocket.new, CNetHandlerSocket.setupSSL, Library.newContext, Program.add,
        Program.put, sound.contexts, eq_comm] using Nat.lt_succ_iff_lt_or_eq.symm
    · show _ ∈ p.lib.newContext.log ↔ _
      rw [log]
      simpa [CNetHandlerSocket.new, CNetHandlerSocket.setupSSL, Library.newContext, Program.add,
        Program.put] using sound.connections x

theorem release (sound : Sound p) (here : p.sockets n = some s) (fit : s'.Fit)
    {call : LibraryCall} {o : Object} (has : s.Has o)
    (gives : ∀ o', s'.Has o' ↔ s.Has o' ∧ o' ≠ o) (frees : call.events = [released o]) :
    Sound (p.put n (s', p.lib.call call)) := by
  have own := (held_here here o).mpr has
  have other : ∀ ssl ctx, call ≠ .switchContext ssl ctx := by
    rintro ssl ctx rfl
    cases frees
  refine sound.put here fit ?_ ?_ ?_ ?_
  · rw [log_call, frees, each_append, List.nil_append]
    exact ⟨sound.fine, ⟨sound.books.live own, trivial⟩, trivial⟩
  · rw [log_call, frees]
    refine (sound.books.release own fun m o' => ?_).congr (fun _ _ => Iff.rfl) (lost_call other)
    rw [held_put]
    by_cases same : m = n
    · subst same
      simp [held_here here, gives]
    · simp only [same, false_and, not_false_eq_true, true_and, false_or, ne_eq]
      refine ⟨fun held => ⟨held, fun eq => ?_⟩, And.left⟩
      exact same (sound.books.alone held (eq ▸ own))
  · intro ctx
    simpa [frees] using sound.contexts ctx
  · intro ssl
    simpa [frees] using sound.connections ssl

/-- A socket that has nothing left. -/
theorem remove (sound : Sound p) (here : p.sockets n = some s) (nothing : ∀ o, ¬ s.Has o) :
    Sound { p with sockets := Function.update p.sockets n none } where
  fine := sound.fine
  books := by
    refine sound.books.congr (fun m o => ?_) fun _ => Iff.rfl
    by_cases same : m = n
    · subst same
      rw [held_here here]
      simp [Program.Held, nothing]
    · simp [Program.Held, same]
  contexts := sound.contexts
  connections := sound.connections
  fit {m t} there := by
    by_cases same : m = n
    · simp [same] at there
    · exact sound.fit (n := m) (by simpa [same] using there)
  fresh m above := by
    by_cases same : m = n
    · simp [same]
    · simpa [same] using sound.fresh m above

theorem destroy (sound : Sound p) (here : p.sockets n = some s) :
    Sound { p with sockets := Function.update p.sockets n none, lib := s.destroy p.lib } := by
  have fit := sound.fit here
  unfold CNetHandlerSocket.destroy
  by_cases secure : s.SSLEnabled = true
  swap
  · obtain ⟨noContext, _, noConnection⟩ := fit.plain (by simpa using secure)
    rw [if_neg secure]
    refine sound.remove here ?_
    rintro (_ | _) <;> simp [CNetHandlerSocket.Has, noContext, noConnection]
  rw [if_pos secure]
  -- First the connection goes back, then the context.
  have left : ({ s with SSL := none } : CNetHandlerSocket).Fit :=
    ⟨fit.secure, fun plain => by simp [secure] at plain⟩
  have sound' : Sound (p.put n ({ s with SSL := none }, p.lib.freeSSL s.SSL)) := by
    cases has : s.SSL with
    | none =>
      refine sound.same here left fun o => ?_
      rcases o with _ | _ <;> simp [CNetHandlerSocket.Has, has]
    | some ssl =>
      have gives (o : Object) : ({ s with SSL := none } : CNetHandlerSocket).Has o ↔
          s.Has o ∧ o ≠ .connection ssl := by
        rcases o with _ | x <;> simp only [CNetHandlerSocket.Has, has] <;> grind
      exact @release _ _ _ _ sound here left (.freeConnection ssl) (.connection ssl) has gives rfl
  have here' := put_here p n ({ s with SSL := none }, p.lib.freeSSL s.SSL)
  have removed (q : CNetHandlerSocket × Library) :
      { p.put n q with sockets := Function.update (p.put n q).sockets n none } =
        { p with sockets := Function.update p.sockets n none, lib := q.2 } := by
    simp [Program.put]
  cases own : s.CTX with
  | none =>
    have gone := sound'.remove here' (by rintro (_ | _) <;> simp [CNetHandlerSocket.Has, own])
    rw [removed] at gone
    exact gone
  | some ctx =>
    unfold Library.freeCTX
    dsimp only
    split <;> rename_i root
    · have gives (o : Object) :
          ({ s with SSL := none, CTXRoot := false } : CNetHandlerSocket).Has o ↔
            ({ s with SSL := none } : CNetHandlerSocket).Has o ∧ o ≠ .context ctx := by
        rcases o with c | _ <;> simp only [CNetHandlerSocket.Has, own, root] <;> grind
      have sound'' := @release _ n _ { s with SSL := none, CTXRoot := false } sound'
        here' ⟨fun _ kept => absurd kept Bool.false_ne_true, fun plain => by simp [secure] at plain⟩
        (.freeContext ctx) (.context ctx) ⟨root, own⟩ gives rfl
      rw [put_put] at sound''
      have gone := sound''.remove (put_here p n _)
        (by rintro (_ | _) <;> simp [CNetHandlerSocket.Has])
      rw [removed] at gone
      exact gone
    · have gone := sound'.remove here'
        (by rintro (_ | _) <;> simp [CNetHandlerSocket.Has, root])
      rw [removed] at gone
      exact gone

end Sound

end Solusek.Tls
