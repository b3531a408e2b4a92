import Solusek.Proofs.ClientHistory
import Solusek.Proofs.TlsUses

/-!
# The client and the TLS library

`runRequest` hands the library a null pointer in three cases only: it does not look at what `connect`
returns, nor at what `d2i_PKCS12_fp` and `PKCS12_parse` leave it, and it sets certificates up whether
or not the connection is a secure one.
-/

namespace Solusek.Tls

open Lifetimes Transition
open Setup (World)

/-! ### Operations one after another -/

/-- The socket of a client that connects with or without TLS. -/
structure Own (secure connected : Bool) (s : CNetHandlerSocket) : Prop where
  root : s.CTXRoot = true
  enabled : s.SSLEnabled = secure
  bare : s.CTX = none ↔ secure = false
  apart : s.SSL = none ↔ connected = false

/-- The socket is the first one. -/
structure Requests (secure connected : Bool) (p : Program) : Prop where
  sound : Sound p
  own : ∃ s, p.sockets 0 = some s ∧ Own secure connected s

namespace Requests

variable {secure connected : Bool} {p : Program}

/-- One call that leaves the socket's context and connection as they are. -/
theorem next (requests : Requests secure connected p) {call : Call} {bad : Prop}
    (leaves : ∀ s, Own secure connected s → p.sockets 0 = some s → p.Allowed (.call 0 call) ∧
      (UsesNull p (.call 0 call) ↔ bad) ∧
        ∃ s' lib, p.call 0 s call = p.put 0 (s', lib) ∧ Own secure connected s') :
    Requests secure connected (p.next (.call 0 call)) ∧
      ((p.next (.call 0 call)).lib.Clean ↔ p.lib.Clean ∧ ¬ bad) := by
  obtain ⟨s, here, own⟩ := requests.own
  obtain ⟨allowed, null, s', lib, same, own'⟩ := leaves s own here
  refine ⟨⟨requests.sound.step allowed, s', ?_, own'⟩, ?_⟩
  · rw [next_call here, same]
    exact put_here p 0 (s', lib)
  · rw [requests.sound.clean_next allowed, null]

theorem useCTX (requests : Requests secure connected p) :
    Requests secure connected (p.next (.call 0 .useCTX)) ∧
      ((p.next (.call 0 .useCTX)).lib.Clean ↔ p.lib.Clean ∧ ¬ secure = false) :=
  requests.next fun s own here => ⟨⟨s, here, own.root⟩,
    (usesNull_call here .useCTX).trans own.bare, s, s.useCTX p.lib, rfl, own⟩

theorem useMem (requests : Requests secure connected p) (data : Option Nat) :
    Requests secure connected (p.next (.call 0 (.useMem data))) ∧
      ((p.next (.call 0 (.useMem data))).lib.Clean ↔
        p.lib.Clean ∧ ¬ (secure = false ∨ data = none)) :=
  requests.next fun s own here => ⟨⟨s, here, own.root⟩,
    (usesNull_call here (.useMem data)).trans (or_congr own.bare Iff.rfl),
    s, s.useMem data p.lib, rfl, own⟩

theorem setSSLMutual (requests : Requests secure connected p) (b : Bool) :
    Requests secure connected (p.next (.call 0 (.setSSLMutual b))) ∧
      ((p.next (.call 0 (.setSSLMutual b))).lib.Clean ↔ p.lib.Clean ∧ ¬ secure = false) :=
  requests.next fun s own here => ⟨⟨s, here, own.root⟩,
    (usesNull_call here (.setSSLMutual b)).trans own.bare,
    { s with SSLMutual := b }, s.useCTX p.lib, rfl, ⟨own.root, own.enabled, own.bare, own.apart⟩⟩

theorem parsePKCS12 (requests : Requests secure connected p) (there : Bool) :
    Requests secure connected (p.next (.parsePKCS12 there)) ∧
      ((p.next (.parsePKCS12 there)).lib.Clean ↔ p.lib.Clean ∧ ¬ there = false) :=
  ⟨⟨sound_parse requests.sound there, requests.own⟩, requests.sound.clean_next trivial⟩

end Requests

/-- `connected` is what `connect` returns. -/
theorem Requests.connect {secure : Bool} {p : Program} (requests : Requests secure false p)
    (connected : Bool) :
    Requests secure (connected && secure) (p.next (.call 0 (.connect connected))) ∧
      ((p.next (.call 0 (.connect connected))).lib.Clean ↔ p.lib.Clean) := by
  obtain ⟨s, here, own⟩ := requests.own
  have allowed : p.Allowed (.call 0 (.connect connected)) :=
    ⟨s, here, own.root, own.apart.mpr rfl⟩
  have clean := requests.sound.clean_next allowed
  rw [usesNull_call here] at clean
  refine ⟨⟨requests.sound.step allowed, (s.connect connected p.lib).1, ?_, ?_⟩,
    clean.trans (and_iff_left id)⟩
  · rw [next_call here]
    exact put_here p 0 _
  · unfold CNetHandlerSocket.connect
    rw [own.enabled]
    cases connected && secure
    · exact own
    · exact ⟨own.root, own.enabled, own.bare, iff_of_false nofun nofun⟩

theorem Requests.delete {secure connected : Bool} {p : Program}
    (requests : Requests secure connected p) :
    (p.next (.call 0 .delete)).lib.Clean ↔ p.lib.Clean := by
  obtain ⟨s, here, _⟩ := requests.own
  have clean := @Sound.clean_next _ requests.sound (.call 0 .delete) ⟨s, here, trivial⟩
  rw [usesNull_call here] at clean
  exact clean.trans (and_iff_left id)

/-! ### The set-up of a request -/

/-- If the PKCS12 file can be opened it holds a structure, and what comes out of it satisfies `P`. -/
def Parses (c : Setup.CClient) (world : World) (P : Option Nat → Option Nat → Prop) : Prop :=
  c.PKCS12FileName = [] ∨ ∀ found ∈ world.pkcs12 (cstr c.PKCS12FileName), ∃ pf, found = some pf ∧
    ∀ cert pkey, pf (cstr c.PKCS12Password) = some (cert, pkey) → P cert pkey

/-- What a call of the set-up hands over; `bare` is whether the socket has no context. -/
def HandsNull (bare : Prop) : Setup.Call → Prop
  | .setSSLCertificateMem data | .setSSLPrivateKeyFileMem data => bare ∨ data = none
  | .parsePKCS12 pf => pf = false
  | .setSSLCertificate _ | .setSSLPrivateKeyFile _ | .setSSLCertificatePassword _
  | .setSSLMutual _ => bare
  | .createSocket _ | .setThrowExceptions _ | .mutexSSL | .setTimeout _ | .connect _ _ => False

theorem Requests.setting {secure connected : Bool} {p : Program}
    (requests : Requests secure connected p) {x : Setup.Call} (setting : x.Setting) (sock : Int)
    (reached : Bool) :
    Requests secure connected ((ofSetup sock reached x).foldl Program.next p) ∧
      (((ofSetup sock reached x).foldl Program.next p).lib.Clean ↔
        p.lib.Clean ∧ ¬ HandsNull (secure = false) x) := by
  cases x with
  | createSocket => exact setting.elim
  | connect => exact setting.elim
  | setSSLCertificate => exact requests.useCTX
  | setSSLPrivateKeyFile => exact requests.useCTX
  | setSSLCertificatePassword => exact requests.useCTX
  | setSSLCertificateMem data => exact requests.useMem data
  | setSSLPrivateKeyFileMem data => exact requests.useMem data
  | setSSLMutual b => exact requests.setSSLMutual b
  | parsePKCS12 pf => exact requests.parsePKCS12 pf
  | setThrowExceptions => exact ⟨requests, (and_iff_left id).symm⟩
  | mutexSSL => exact ⟨requests, (and_iff_left id).symm⟩
  | setTimeout => exact ⟨requests, (and_iff_left id).symm⟩

end Solusek.Tls
