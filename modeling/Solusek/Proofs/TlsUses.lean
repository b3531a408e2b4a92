import Solusek.Lib.Runs
import Solusek.Proofs.TlsObjects

/-!
# What the library is handed

No connection and no context is used after it has been freed, or freed twice. A null pointer reaches
the library in those operations alone that have none to hand to it.
-/

namespace Solusek.Tls

open Lifetimes Transition
open Lifetimes.Event (made used released)

/-! ### Connections -/

namespace Sound

variable {p : Program} {n : Nat} {s : CNetHandlerSocket}

/-- The new connection, once made, is used. -/
theorem useNew {ssl : Nat} {lib : Library}
    (begun : Sound (p.put n ({ s with SSL := some ssl }, lib))) (call : LibraryCall)
    (uses : call.events = [Object.connection ssl].map used)
    (other : ∀ x ctx, call ≠ .switchContext x ctx) :
    Sound (p.put n ({ s with SSL := some ssl }, lib.call call)) := by
  have here := put_here p n ({ s with SSL := some ssl }, lib)
  have done := begun.use here (begun.fit here) (fun _ => Iff.rfl) uses
    (List.forall_mem_singleton.mpr rfl) other
  rwa [put_put] at done

theorem connectSSL (sound : Sound p) (here : p.sockets n = some s) (secure : s.SSLEnabled = true)
    (root : s.CTXRoot = true) (free : s.SSL = none) : Sound (p.put n (s.connectSSL p.lib)) := by
  have begun := sound.newSSL here secure root free s.SID
  have named := begun.useNew (.setHostName (some p.lib.connections)) rfl nofun
  exact named.useNew (.connect p.lib.connections) rfl nofun

theorem acceptSSL (sound : Sound p) (here : p.sockets n = some s) (secure : s.SSLEnabled = true)
    (root : s.CTXRoot = true) (free : s.SSL = none) (sid : Int) (hello : Option Str) :
    Sound (p.put n (s.acceptSSL sid hello p.lib)) := by
  have shaken := (sound.newSSL here secure root free sid).useNew (.accept p.lib.connections) rfl
    nofun
  unfold CNetHandlerSocket.acceptSSL
  dsimp only
  split
  · have named := shaken.sniCallback (put_here p n _) rfl secure hello
    rwa [put_put] at named
  · exact shaken

end Sound

/-- What the handshake leaves as it is. -/
theorem acceptSSL_socket (s : CNetHandlerSocket) (sid : Int) (hello : Option Str) (lib : Library) :
    (s.acceptSSL sid hello lib).1.SSL = some lib.connections ∧
      (s.acceptSSL sid hello lib).1.CTX = s.CTX ∧
      (s.acceptSSL sid hello lib).1.CTXRoot = s.CTXRoot ∧
      (s.acceptSSL sid hello lib).1.SSLEnabled = s.SSLEnabled := by
  unfold CNetHandlerSocket.acceptSSL CNetHandlerSocket.sniCallback
  dsimp only
  repeat' split
  all_goals exact ⟨rfl, rfl, rfl, rfl⟩

theorem call_accept_plain {s : CNetHandlerSocket} (plain : s.SSLEnabled = false) (fit : s.Fit)
    (p : Program) (n : Nat) (sid sock : Int) (hello : Option Str) :
    p.call n s (.accept false sid sock hello) = (p.put n ({ s with SSL := none }, p.lib)).add
      ({ SID := if sid = 0 then sock else sid, SSLEnabled := false, SSLMutual := s.SSLMutual,
         CTX := none, SSL := none, CTXRoot := true }, p.lib) := by
  obtain ⟨noContext, noChild, noConnection⟩ := fit.plain plain
  simp only [Program.call, CNetHandlerSocket.accept, plain, noContext, noChild, noConnection,
    Bool.false_eq_true, if_false, Option.or_none]
  rfl

/-- `accept` of a connection with TLS. -/
theorem call_accept {s : CNetHandlerSocket} (secure : s.SSLEnabled = true) (p : Program) (n : Nat)
    (sid sock : Int) (hello : Option Str) : p.call n s (.accept false sid sock hello) =
      (p.put n ({ (s.acceptSSL sid hello p.lib).1 with SSL := none },
        (s.acceptSSL sid hello p.lib).2)).add
        ({ SID := if sid = 0 then sock else sid
           SSLEnabled := true
           SSLMutual := (s.acceptSSL sid hello p.lib).1.SSLMutual
           CTX := (s.acceptSSL sid hello p.lib).1.ChildCTX.or (s.acceptSSL sid hello p.lib).1.CTX
           SSL := some p.lib.connections
           CTXRoot := ((s.acceptSSL sid hello p.lib).1.ChildCTX.or
             (s.acceptSSL sid hello p.lib).1.CTX).isNone },
          (s.acceptSSL sid hello p.lib).2) := by
  obtain ⟨has, _, _, on⟩ := acceptSSL_socket s sid hello p.lib
  unfold Program.call CNetHandlerSocket.accept CNetHandlerSocket.new
  simp only [Bool.false_eq_true, if_false, if_pos secure]
  rw [on, has, secure]
  rfl

namespace Sound

variable {p : Program} {n : Nat} {s : CNetHandlerSocket}

theorem accept (sound : Sound p) (here : p.sockets n = some s) (root : s.CTXRoot = true)
    (free : s.SSL = none) (sid sock : Int) (hello : Option Str) :
    Sound (p.call n s (.accept false sid sock hello)) := by
  cases secure : s.SSLEnabled with
  | false =>
    obtain ⟨noContext, noChild, _⟩ := (sound.fit here).plain secure
    rw [call_accept_plain secure (sound.fit here)]
    exact sound.handOver here ⟨(sound.fit here).secure, fun _ => ⟨noContext, noChild, rfl⟩⟩
      ⟨fun on => absurd on Bool.false_ne_true, fun _ => ⟨rfl, rfl, rfl⟩⟩ free.symm fun _ => rfl
  | true =>
    have shaken := sound.acceptSSL here secure root free sid hello
    obtain ⟨has, own, still, on⟩ := acceptSSL_socket s sid hello p.lib
    obtain ⟨ctx, context⟩ := sound.own_context here secure root
    obtain ⟨lent, lends⟩ : ∃ lent, (s.acceptSSL sid hello p.lib).1.ChildCTX.or
        (s.acceptSSL sid hello p.lib).1.CTX = some lent := by
      rw [own, context]
      cases (s.acceptSSL sid hello p.lib).1.ChildCTX with
      | some child => exact ⟨child, rfl⟩
      | none => exact ⟨ctx, rfl⟩
    rw [call_accept secure, lends]
    have taken := @handOver _ _ _ shaken (put_here p n _)
      { SID := if sid = 0 then sock else sid, SSLEnabled := true,
        SSLMutual := (s.acceptSSL sid hello p.lib).1.SSLMutual, CTX := some lent,
        SSL := some p.lib.connections, CTXRoot := false }
      ⟨(shaken.fit (put_here p n _)).secure, fun plain => by simp [on, secure] at plain⟩
      ⟨fun _ _ => rfl, fun plain => absurd plain.symm Bool.false_ne_true⟩ has.symm nofun
    rwa [put_put] at taken

/-! ### Operations -/

/-- What the library is handed as the socket's context or connection. -/
theorem useOwn (sound : Sound p) (here : p.sockets n = some s) {s' : CNetHandlerSocket}
    (fit : s'.Fit) (has : ∀ o, s'.Has o ↔ s.Has o) {call : LibraryCall} {o : Option Object}
    (uses : call.events = o.toList.map used) (own : ∀ x ∈ o, s.Has x)
    (other : ∀ ssl ctx, call ≠ .switchContext ssl ctx) : Sound (p.put n (s', p.lib.call call)) :=
  sound.use here fit has uses (fun x member => own x (Option.mem_toList.mp member)) other

theorem useContext (sound : Sound p) (here : p.sockets n = some s) (root : s.CTXRoot = true)
    {s' : CNetHandlerSocket} (fit : s'.Fit) (has : ∀ o, s'.Has o ↔ s.Has o) (call : LibraryCall)
    (uses : call.events = (s.CTX.map Object.context).toList.map used)
    (other : ∀ ssl ctx, call ≠ .switchContext ssl ctx) : Sound (p.put n (s', p.lib.call call)) := by
  refine sound.useOwn here fit has uses (fun x member => ?_) other
  obtain ⟨ctx, own, rfl⟩ := Option.mem_map.mp member
  exact ⟨root, own⟩

theorem useConnection (sound : Sound p) (here : p.sockets n = some s) (call : LibraryCall)
    (uses : call.events = (s.SSL.map Object.connection).toList.map used)
    (other : ∀ ssl ctx, call ≠ .switchContext ssl ctx) (cond : Bool) :
    Sound (p.put n (s, if cond then p.lib.call call else p.lib)) := by
  have fit := sound.fit here
  split
  · refine sound.useOwn here fit (fun _ => Iff.rfl) uses (fun x member => ?_) other
    obtain ⟨ssl, own, rfl⟩ := Option.mem_map.mp member
    exact own
  · exact sound.same here fit fun _ => Iff.rfl

end Sound

theorem next_call {p : Program} {n : Nat} {s : CNetHandlerSocket} (here : p.sockets n = some s)
    (call : Call) : p.next (.call n call) = p.call n s call := by
  simp only [Program.next, here]

theorem sound_parse {p : Program} (sound : Sound p) (there : Bool) :
    Sound (p.next (.parsePKCS12 there)) := by
  have log : (p.lib.call (.parsePKCS12 there)).log = p.lib.log := by simp [LibraryCall.events]
  have lost := @lost_call p.lib (.parsePKCS12 there) fun _ _ same => by cases same
  constructor
  · exact log ▸ sound.fine
  · exact (log ▸ sound.books : Books (p.lib.call (.parsePKCS12 there)).log p.Held p.lib.Lost).congr
      (fun _ _ => Iff.rfl) lost
  · exact log ▸ sound.contexts
  · exact log ▸ sound.connections
  · exact sound.fit
  · exact sound.fresh

theorem Sound.step {p : Program} (sound : Sound p) {op : Op} (allowed : p.Allowed op) :
    Sound (p.next op) := by
  cases op with
  | createSocket ssl sock => exact sound.create ssl sock
  | parsePKCS12 there => exact sound_parse sound there
  | call n call =>
    obtain ⟨s, here, may⟩ := allowed
    rw [next_call here]
    have fit := sound.fit here
    cases call with
    | useCTX =>
      exact sound.useContext here may fit (fun _ => Iff.rfl) (.setContext s.CTX) rfl nofun
    | useMem data =>
      exact sound.useContext here may fit (fun _ => Iff.rfl) (.useObject s.CTX data) rfl nofun
    | setSSLMutual enabled =>
      have fit' : ({ s with SSLMutual := enabled } : CNetHandlerSocket).Fit :=
        ⟨fit.secure, fit.plain⟩
      exact sound.useContext here may fit' (fun _ => Iff.rfl) (.setContext s.CTX) rfl nofun
    | setSNIEnabled enabled =>
      have fit' : ({ s with SNIEnabled := enabled } : CNetHandlerSocket).Fit :=
        ⟨fit.secure, fit.plain⟩
      exact sound.useContext here may fit' (fun _ => Iff.rfl) (.setContext s.CTX) rfl nofun
    | addSSLCertificateToSNI obj =>
      exact sound.same here ⟨fit.secure, fit.plain⟩ fun _ => Iff.rfl
    | setSNIClientHost => exact sound.useConnection here (.setHostName s.SSL) rfl nofun true
    | openClientCertificateX509 =>
      exact sound.useConnection here (.getPeerCertificate s.SSL) rfl nofun true
    | getClientCertificate =>
      exact sound.useConnection here (.getPeerCertificate s.SSL) rfl nofun s.SSLMutual
    | readBuffer => exact sound.useConnection here (.read s.SSL) rfl nofun s.SSLEnabled
    | writeBuffer => exact sound.useConnection here (.write s.SSL) rfl nofun s.SSLEnabled
    | connect connected =>
      show Sound (p.put n (s.connect connected p.lib))
      unfold CNetHandlerSocket.connect
      split <;> rename_i on
      · exact sound.connectSSL here (Bool.and_eq_true_iff.mp on).2 may.1 may.2
      · exact sound.same here fit fun _ => Iff.rfl
    | accept refused sid sock hello =>
      cases refused with
      | true => exact sound
      | false => exact sound.accept here may.1 may.2 sid sock hello
    | delete => exact sound.destroy here

/-! ### Null pointers -/

/-- What the call needs is a null pointer. -/
def CNetHandlerSocket.Lacks (s : CNetHandlerSocket) : Call → Prop
  | .useCTX | .setSSLMutual _ | .setSNIEnabled _ => s.CTX = none
  | .useMem data => s.CTX = none ∨ data = none
  | .setSNIClientHost | .openClientCertificateX509 => s.SSL = none
  | .getClientCertificate => s.SSLMutual = true ∧ s.SSL = none
  | .readBuffer | .writeBuffer => s.SSLEnabled = true ∧ s.SSL = none
  | .addSSLCertificateToSNI _ | .connect _ | .accept _ _ _ _ | .delete => False

/-- The operation has a null pointer to hand over. -/
def UsesNull (p : Program) : Op → Prop
  | .createSocket _ _ => False
  | .parsePKCS12 there => there = false
  | .call n call => ∃ s, p.sockets n = some s ∧ s.Lacks call

theorem usesNull_call {p : Program} {n : Nat} {s : CNetHandlerSocket}
    (here : p.sockets n = some s) (call : Call) : UsesNull p (.call n call) ↔ s.Lacks call := by
  simp only [UsesNull, here, Option.some.injEq, exists_eq_left']

theorem nulls_newSSL (lib : Library) (ctx : Nat) (sid : Int) :
    (lib.newSSL (some ctx) sid).nulls = lib.nulls := by
  simp [Library.newSSL, LibraryCall.handsNull, Library.nulls, Library.call]

theorem nulls_newContext (lib : Library) : lib.newContext.nulls = lib.nulls := by
  simp [Library.newContext, LibraryCall.handsNull, Library.nulls, Library.call]

theorem nulls_serveName (lib : Library) (ssl : Nat) : (lib.serveName ssl).nulls = lib.nulls := by
  simp [Library.serveName, LibraryCall.handsNull, nulls_newContext]

theorem nulls_acceptSSL {s : CNetHandlerSocket} {ctx : Nat} (own : s.CTX = some ctx) (sid : Int)
    (hello : Option Str) (lib : Library) : (s.acceptSSL sid hello lib).2.nulls = lib.nulls := by
  unfold CNetHandlerSocket.acceptSSL CNetHandlerSocket.sniCallback
  rw [own]
  dsimp only
  repeat' split
  all_goals simp [nulls_serveName, nulls_newSSL, LibraryCall.handsNull]

theorem nulls_connectSSL {s : CNetHandlerSocket} {ctx : Nat} (own : s.CTX = some ctx)
    (lib : Library) : (s.connectSSL lib).2.nulls = lib.nulls := by
  unfold CNetHandlerSocket.connectSSL CNetHandlerSocket.setSNIClientHost
  rw [own]
  simp [nulls_newSSL, LibraryCall.handsNull]

theorem nulls_destroy (s : CNetHandlerSocket) (lib : Library) :
    (s.destroy lib).nulls = lib.nulls := by
  unfold CNetHandlerSocket.destroy
  cases s.SSL <;> cases s.CTX <;> cases s.CTXRoot <;> cases s.SSLEnabled <;>
    simp [Library.freeSSL, Library.freeCTX, LibraryCall.handsNull]

theorem nulls_next {p : Program} (sound : Sound p) {op : Op} (allowed : p.Allowed op) :
    UsesNull p op ∧ (p.next op).lib.nulls = p.lib.nulls + 1 ∨
      ¬ UsesNull p op ∧ (p.next op).lib.nulls = p.lib.nulls := by
  -- One call that hands a null pointer over if `bad`.
  have one (call : LibraryCall) {bad : Prop} (hands : call.handsNull = true ↔ bad) :
      bad ∧ (p.lib.call call).nulls = p.lib.nulls + 1 ∨
        ¬ bad ∧ (p.lib.call call).nulls = p.lib.nulls := by
    rw [nulls_call, ← hands]
    cases call.handsNull <;> simp
  have oneIf (call : LibraryCall) {bad : Prop} (hands : call.handsNull = true ↔ bad) (cond : Bool) :
      (cond = true ∧ bad) ∧ (if cond then p.lib.call call else p.lib).nulls = p.lib.nulls + 1 ∨
        ¬ (cond = true ∧ bad) ∧ (if cond then p.lib.call call else p.lib).nulls = p.lib.nulls := by
    cases cond
    · simp
    · simpa using one call hands
  cases op with
  | createSocket ssl sock =>
    refine Or.inr ⟨id, ?_⟩
    cases ssl
    · rfl
    · exact nulls_newContext p.lib
  | parsePKCS12 there => exact one (.parsePKCS12 there) (Bool.not_eq_true' there).to_iff
  | call n call =>
    obtain ⟨s, here, may⟩ := allowed
    rw [next_call here, usesNull_call here]
    cases call with
    | useCTX => exact one (.setContext s.CTX) Option.isNone_iff_eq_none
    | useMem data =>
      exact one (.useObject s.CTX data)
        (by simp [LibraryCall.handsNull, CNetHandlerSocket.Lacks])
    | setSSLMutual => exact one (.setContext s.CTX) Option.isNone_iff_eq_none
    | setSNIEnabled => exact one (.setContext s.CTX) Option.isNone_iff_eq_none
    | addSSLCertificateToSNI => exact Or.inr ⟨id, rfl⟩
    | setSNIClientHost => exact one (.setHostName s.SSL) Option.isNone_iff_eq_none
    | openClientCertificateX509 =>
      exact one (.getPeerCertificate s.SSL) Option.isNone_iff_eq_none
    | getClientCertificate =>
      exact oneIf (.getPeerCertificate s.SSL) Option.isNone_iff_eq_none s.SSLMutual
    | readBuffer => exact oneIf (.read s.SSL) Option.isNone_iff_eq_none s.SSLEnabled
    | writeBuffer => exact oneIf (.write s.SSL) Option.isNone_iff_eq_none s.SSLEnabled
    | connect connected =>
      refine Or.inr ⟨id, ?_⟩
      simp only [Program.call, Program.put, CNetHandlerSocket.connect]
      split <;> rename_i on
      · obtain ⟨ctx, own⟩ := sound.own_context here (Bool.and_eq_true_iff.mp on).2 may.1
        exact nulls_connectSSL own p.lib
      · rfl
    | accept refused sid sock hello =>
      refine Or.inr ⟨id, ?_⟩
      cases refused with
      | true => rfl
      | false =>
        cases secure : s.SSLEnabled with
        | false => rw [call_accept_plain secure (sound.fit here)]; rfl
        | true =>
          obtain ⟨ctx, own⟩ := sound.own_context here secure may.1
          rw [call_accept secure]
          exact nulls_acceptSSL own sid hello p.lib
    | delete => exact Or.inr ⟨id, nulls_destroy s p.lib⟩

/-! ### Runs -/

theorem sound_new : Sound .new where
  fine := trivial
  books := Books.start.congr (fun n o => by simp [Program.Held, Program.new])
    fun o => by simp [Library.Lost, Program.new]
  contexts ctx := by simp [Program.new, Library.log]
  connections ssl := by simp [Program.new, Library.log]
  fit there := nomatch there
  fresh _ _ := rfl

theorem run_eq {ops : List Op} {p q : Program} (run : Runs Program.Step p ops q) :
    q = ops.foldl Program.next p := by
  induction run with
  | nil => rfl
  | snoc _ last ih => rw [List.foldl_append, last.2, ih]; rfl

theorem run_sound {ops : List Op} {p : Program} (run : Runs Program.Step .new ops p) : Sound p :=
  run.invariant sound_new fun sound last => last.2 ▸ sound.step last.1

/-- Nothing is freed or used that is not alive, and no null pointer is handed over. -/
structure Library.Clean (lib : Library) : Prop where
  fine : Each Fine [] lib.log
  nulls : lib.nulls = 0

theorem Sound.clean_next {p : Program} (sound : Sound p) {op : Op} (allowed : p.Allowed op) :
    (p.next op).lib.Clean ↔ p.lib.Clean ∧ ¬ UsesNull p op := by
  have fine := (sound.step allowed).fine
  rcases nulls_next sound allowed with ⟨uses, more⟩ | ⟨spares, same⟩
  · refine ⟨fun clean => ?_, fun ⟨_, spares⟩ => absurd uses spares⟩
    have none := clean.nulls
    omega
  · refine ⟨fun clean => ⟨⟨sound.fine, same ▸ clean.nulls⟩, spares⟩, fun ⟨clean, _⟩ => ?_⟩
    exact ⟨fine, same.trans clean.nulls⟩

theorem clean_createSocket (secure : Bool) (sock : Int) :
    (Program.new.next (.createSocket secure sock)).lib.Clean :=
  (@Sound.clean_next _ sound_new (.createSocket secure sock) trivial).mpr ⟨⟨trivial, rfl⟩, id⟩

/-- Whatever a program does with its sockets, the library never sees a connection or a context that
has been freed; it is handed a null pointer by those operations alone that do so at once. -/
theorem handed_iff {ops : List Op} {p : Program} (run : Runs Program.Step .new ops p) :
    Each Fine [] p.lib.log ∧
      Each (fun pre op => (pre.foldl Program.next .new).lib.nulls <
        ((pre.foldl Program.next .new).next op).lib.nulls ↔
          UsesNull (pre.foldl Program.next .new) op) [] ops := by
  refine ⟨(run_sound run).fine, ?_⟩
  induction run with
  | nil => trivial
  | snoc before last ih =>
    rw [each_append, List.nil_append, each_cons, ← run_eq before]
    refine ⟨ih, ?_, trivial⟩
    rcases nulls_next (run_sound before) last.1 with ⟨uses, more⟩ | ⟨spares, same⟩
    · simp [uses, more]
    · simp [spares, same]

def exampleListener : List Op :=
  [.createSocket true 3, .call 0 .useCTX, .call 0 (.accept false 4 9 none), .call 1 .readBuffer,
    .call 0 .setSNIClientHost, .call 0 .delete, .call 1 .writeBuffer, .call 1 .delete]

theorem exampleListener_run : Runs Program.Step .new exampleListener
    (exampleListener.foldl Program.next .new) :=
  Follows.runs ⟨trivial, ⟨_, rfl, rfl⟩, ⟨_, rfl, rfl, rfl⟩, ⟨_, rfl, trivial⟩, ⟨_, rfl, trivial⟩,
    ⟨_, rfl, trivial⟩, ⟨_, rfl, trivial⟩, ⟨_, rfl, trivial⟩, trivial⟩

theorem handed_iff_listener : Each Fine [] (exampleListener.foldl Program.next .new).lib.log ∧
    ((exampleListener.take 4).foldl Program.next .new).lib.nulls <
      ((exampleListener.take 5).foldl Program.next .new).lib.nulls := by
  obtain ⟨fine, nulls⟩ := handed_iff exampleListener_run
  exact ⟨fine, nulls.2.2.2.2.1.mpr ⟨_, rfl, rfl⟩⟩

end Solusek.Tls
