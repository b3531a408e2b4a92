import Solusek.Proofs.TlsUses

/-!
# The server and the TLS library

Whatever its threads do with the connections it has accepted, the server hands the library nothing
that is freed or null.
-/

namespace Solusek.Tls

open Transition

/-- What `run` does with the listening socket, which is the first one, and the nodes with theirs. -/
inductive ServerOp (secure : Bool) : Op → Prop where
  | setUp (asked : secure = true) : ServerOp secure (.call 0 .useCTX)
  | setSSLMutual (asked : secure = true) : ServerOp secure (.call 0 (.setSSLMutual false))
  | accept (refused : Bool) (sid sock : Int) (hello : Option Str) :
    ServerOp secure (.call 0 (.accept refused sid sock hello))
  | close : ServerOp secure (.call 0 .delete)
  | read (n : Nat) : ServerOp secure (.call (n + 1) .readBuffer)
  | write (n : Nat) : ServerOp secure (.call (n + 1) .writeBuffer)
  | finish (n : Nat) : ServerOp secure (.call (n + 1) .delete)

/-- The listening socket has a context if it is to have one, the others have their connections. -/
def Place (secure : Bool) : Nat → CNetHandlerSocket → Prop
  | 0, s => s.SSLEnabled = secure ∧ s.CTXRoot = true
  | _ + 1, s => s.SSLEnabled = true → s.SSL ≠ none

structure Serving (secure : Bool) (p : Program) : Prop where
  sound : Sound p
  clean : p.lib.Clean
  places : ∀ {n s}, p.sockets n = some s → Place secure n s
  begun : p.made ≠ 0

theorem serving_start (secure : Bool) (sock : Int) :
    Serving secure (Program.new.next (.createSocket secure sock)) where
  sound := sound_new.step trivial
  clean := clean_createSocket secure sock
  places {n s} here := by
    cases n with
    | succ n => cases here
    | zero =>
      obtain rfl := Option.some.inj here
      cases secure <;> exact ⟨rfl, rfl⟩
  begun := Nat.one_ne_zero

theorem places_put {secure : Bool} {p : Program}
    (places : ∀ {n s}, p.sockets n = some s → Place secure n s) {n : Nat}
    {result : CNetHandlerSocket × Library} (place : Place secure n result.1) {m : Nat}
    {t : CNetHandlerSocket} (there : (p.put n result).sockets m = some t) : Place secure m t := by
  by_cases same : m = n
  · subst same
    obtain rfl := Option.some.inj ((put_here p m result).symm.trans there)
    exact place
  · exact places ((Function.update_of_ne same _ _).symm.trans there)

theorem places_removed {secure : Bool} {p : Program}
    (places : ∀ {n s}, p.sockets n = some s → Place secure n s) {n m : Nat} {t : CNetHandlerSocket}
    (there : Function.update p.sockets n none m = some t) : Place secure m t := by
  by_cases same : m = n
  · simp [same] at there
  · exact places ((Function.update_of_ne same _ _).symm.trans there)

namespace Serving

variable {secure : Bool} {p : Program} {op : Op}

theorem context (serving : Serving secure p) (asked : secure = true) {s : CNetHandlerSocket}
    (here : p.sockets 0 = some s) : s.CTX ≠ none := by
  obtain ⟨on, root⟩ := serving.places here
  exact Option.isSome_iff_ne_none.mp ((serving.sound.fit here).secure (on.trans asked) root)

theorem not_null (serving : Serving secure p) (usual : ServerOp secure op) : ¬ UsesNull p op := by
  cases usual with
  | setUp asked => exact fun ⟨s, here, bare⟩ => serving.context asked here bare
  | setSSLMutual asked => exact fun ⟨s, here, bare⟩ => serving.context asked here bare
  | accept => exact fun ⟨_, _, never⟩ => never
  | close => exact fun ⟨_, _, never⟩ => never
  | finish => exact fun ⟨_, _, never⟩ => never
  | read n => exact fun ⟨s, here, on, apart⟩ => serving.places here on apart
  | write n => exact fun ⟨s, here, on, apart⟩ => serving.places here on apart

theorem step (serving : Serving secure p) (usual : ServerOp secure op) (allowed : p.Allowed op) :
    Serving secure (p.next op) := by
  have sound := serving.sound.step allowed
  have clean := (serving.sound.clean_next allowed).mpr ⟨serving.clean, serving.not_null usual⟩
  have places := @serving.places
  cases usual with
  | setUp =>
    obtain ⟨s, here, _⟩ := allowed
    rw [next_call here] at *
    exact ⟨sound, clean, places_put places (places here), serving.begun⟩
  | setSSLMutual =>
    obtain ⟨s, here, _⟩ := allowed
    have own := places here
    rw [next_call here] at *
    refine ⟨sound, clean, places_put places ?_, serving.begun⟩
    exact own
  | read n =>
    obtain ⟨s, here, _⟩ := allowed
    rw [next_call here] at *
    exact ⟨sound, clean, places_put places (places here), serving.begun⟩
  | write n =>
    obtain ⟨s, here, _⟩ := allowed
    rw [next_call here] at *
    exact ⟨sound, clean, places_put places (places here), serving.begun⟩
  | close =>
    obtain ⟨s, here, _⟩ := allowed
    rw [next_call here] at *
    exact ⟨sound, clean, places_removed places, serving.begun⟩
  | finish n =>
    obtain ⟨s, here, _⟩ := allowed
    rw [next_call here] at *
    exact ⟨sound, clean, places_removed places, serving.begun⟩
  | accept refused sid sock hello =>
    obtain ⟨s, here, root, _⟩ := allowed
    obtain ⟨k, opened⟩ := Nat.exists_eq_succ_of_ne_zero serving.begun
    have own := places here
    rw [next_call here] at *
    cases refused with
    | true => exact ⟨sound, clean, places, serving.begun⟩
    | false =>
      cases on : s.SSLEnabled with
      | false =>
        rw [call_accept_plain on (serving.sound.fit here)] at *
        refine ⟨sound, clean, ?_, Nat.succ_ne_zero _⟩
        refine places_put (places_put places (n := 0) own) (n := p.made) ?_
        rw [opened]
        exact fun secure => absurd secure Bool.false_ne_true
      | true =>
        rw [call_accept on] at *
        refine ⟨sound, clean, ?_, Nat.succ_ne_zero _⟩
        refine places_put (places_put places (n := 0) ?_) (n := p.made) ?_
        · obtain ⟨_, _, still, same⟩ := acceptSSL_socket s sid hello p.lib
          exact ⟨same.trans own.1, still.trans root⟩
        · rw [opened]
          exact fun _ => nofun

end Serving

/-- Whatever its threads do with the connections, and in which order, and though the listening
socket goes before them: the server uses nothing that is freed or null. -/
theorem server_clean {secure : Bool} {sock : Int} {ops : List Op} {p : Program}
    (run : Runs (Guarded (fun _ op => ServerOp secure op) Program.Step)
      (Program.new.next (.createSocket secure sock)) ops p) : p.lib.Clean := by
  refine (run.invariant (P := Serving secure) (serving_start secure sock) ?_).clean
  rintro p op q serving ⟨usual, allowed, rfl⟩
  exact serving.step usual allowed

theorem server_clean_late : ([.call 0 .useCTX, .call 0 (.accept false 4 9 none), .call 0 .delete,
    .call 1 .readBuffer, .call 1 .writeBuffer, .call 1 .delete].foldl Program.next
      (Program.new.next (.createSocket true 3))).lib.Clean := by
  refine @server_clean true 3 _ _ (Follows.guarded ?_)
  exact ⟨⟨.setUp rfl, ⟨_, rfl, rfl⟩⟩, ⟨.accept _ _ _ _, ⟨_, rfl, rfl, rfl⟩⟩,
    ⟨.close, ⟨_, rfl, trivial⟩⟩, ⟨.read 0, ⟨_, rfl, trivial⟩⟩, ⟨.write 0, ⟨_, rfl, trivial⟩⟩,
    ⟨.finish 0, ⟨_, rfl, trivial⟩⟩, trivial⟩

end Solusek.Tls
