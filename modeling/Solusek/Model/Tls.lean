import Solusek.Lib.Lifetimes
import Solusek.Model.Listener
import Solusek.Model.ClientSetup

/-!
# Sockets and the TLS library

`CNetHandlerSocket` as far as it makes, uses and frees contexts and connections of the TLS
library, which are numbered as they are made. What a context is set up with is left out, and so are
the certificates: those of the server names, and those that a client shows. `setCTX`, which nothing
calls and `INetHandlerSocket` does not have, is left out too.
-/

namespace Solusek.Tls

open Lifetimes Listening

/-- A null pointer is `none`. -/
inductive LibraryCall where
  /-- `SSL_CTX_new` -/
  | newContext (ctx : Nat)
  /-- `SSL_CTX_set_*`, `SSL_CTX_use_*`, `SSL_CTX_load_*`: a row of such calls is one. -/
  | setContext (ctx : Option Nat)
  /-- `SSL_CTX_use_certificate`, `SSL_CTX_use_PrivateKey` -/
  | useObject (ctx data : Option Nat)
  /-- `SSL_new` -/
  | newConnection (ssl : Nat) (ctx : Option Nat)
  /-- `SSL_set_fd` -/
  | setFd (ssl : Nat) (sid : Int)
  /-- `SSL_accept` -/
  | accept (ssl : Nat)
  /-- `SSL_set_connect_state`, `SSL_connect` -/
  | connect (ssl : Nat)
  /-- `SSL_set_tlsext_host_name` -/
  | setHostName (ssl : Option Nat)
  /-- `SSL_get_peer_certificate` -/
  | getPeerCertificate (ssl : Option Nat)
  /-- `SSL_set_SSL_CTX` -/
  | switchContext (ssl ctx : Nat)
  /-- `SSL_read` -/
  | read (ssl : Option Nat)
  /-- `SSL_write` -/
  | write (ssl : Option Nat)
  /-- `SSL_free` -/
  | freeConnection (ssl : Nat)
  /-- `SSL_CTX_free` -/
  | freeContext (ctx : Nat)
  /-- `PKCS12_parse`; `there` is whether it is handed a structure. -/
  | parsePKCS12 (there : Bool)
  deriving DecidableEq, Repr

structure Library where
  contexts : Nat := 0
  connections : Nat := 0
  calls : List LibraryCall := []

namespace Library

def call (lib : Library) (call : LibraryCall) : Library :=
  { lib with calls := lib.calls ++ [call] }

/-- The context that `setupSSL` makes. -/
def newContext (lib : Library) : Library :=
  let ctx := lib.contexts
  let lib := { lib with contexts := lib.contexts + 1 }
  (lib.call (.newContext ctx)).call (.setContext (some ctx))

/-- What both sides do first in `setupSSLSocket`. -/
def newSSL (lib : Library) (CTX : Option Nat) (sid : Int) : Library :=
  let ssl := lib.connections
  let lib := { lib with connections := lib.connections + 1 }
  (lib.call (.newConnection ssl CTX)).call (.setFd ssl sid)

/-- What `_sni_callback` does for a name it knows. -/
def serveName (lib : Library) (ssl : Nat) : Library :=
  let ctx := lib.contexts
  (lib.newContext.call (.switchContext ssl ctx)).call (.setContext (some ctx))

/-- `if(_SSL) SSL_free(_SSL);` -/
def freeSSL (lib : Library) : Option Nat → Library
  | some ssl => lib.call (.freeConnection ssl)
  | none => lib

/-- `if(CTXRoot && CTX) SSL_CTX_free(CTX);` -/
def freeCTX (lib : Library) (CTXRoot : Bool) : Option Nat → Library
  | some ctx => if CTXRoot then lib.call (.freeContext ctx) else lib
  | none => lib

end Library

structure CNetHandlerSocket where
  SID : Int
  SSLEnabled : Bool
  SSLMutual : Bool := false
  CTX : Option Nat
  ChildCTX : Option Nat := none
  /-- `_SSL` -/
  SSL : Option Nat
  CTXRoot : Bool
  SNIEnabled : Bool := false
  SNIList : List SNIObj := []
  deriving DecidableEq, Repr

namespace CNetHandlerSocket

/-- Nobody passes `re`. -/
def setupSSL (s : CNetHandlerSocket) (lib : Library) : CNetHandlerSocket × Library :=
  ({ s with CTX := some lib.contexts, ChildCTX := none }, lib.newContext)

/-- The constructor; `sock` is what `socket()` returns where it is called. -/
def new (sid sock : Int) (ssl sslMutual : Bool) (ctx _ssl : Option Nat) (lib : Library) :
    CNetHandlerSocket × Library :=
  let s : CNetHandlerSocket :=
    { SID := if sid = 0 then sock else sid, SSLEnabled := ssl, SSLMutual := sslMutual, CTX := ctx,
      SSL := _ssl, CTXRoot := ctx.isNone }
  if s.SSLEnabled && s.SSL.isNone then s.setupSSL lib else (s, lib)

def setChildCTX (s : CNetHandlerSocket) (ctx : Option Nat) : CNetHandlerSocket :=
  { s with ChildCTX := ctx }

def setSNIClientHost (s : CNetHandlerSocket) (lib : Library) : Library :=
  lib.call (.setHostName s.SSL)

/-- `_sni_callback`; the new context is the listening socket's `ChildCTX` from then on. -/
def sniCallback (s : CNetHandlerSocket) (ssl : Nat) (hello : Option Str) (lib : Library) :
    CNetHandlerSocket × Library :=
  match hello with
  | none => (s, lib)
  | some cname =>
    match s.SNIList.find? fun it => cstr cname == it.Host with
    | some _ => (s.setChildCTX (some lib.contexts), lib.serveName ssl)
    | none => (s, lib)

/-- `setupSSLSocket` for an accepted connection, whose client sends `hello`: the handshake calls
the callback where one is set. -/
def acceptSSL (s : CNetHandlerSocket) (sid : Int) (hello : Option Str) (lib : Library) :
    CNetHandlerSocket × Library :=
  let ssl := lib.connections
  let lib := (lib.newSSL s.CTX sid).call (.accept ssl)
  let s := { s with SSL := some ssl }
  if s.SNIEnabled then s.sniCallback ssl hello lib else (s, lib)

/-- `setupSSLSocket` for a connection of its own; `connect` has a host name. -/
def connectSSL (s : CNetHandlerSocket) (lib : Library) : CNetHandlerSocket × Library :=
  let ssl := lib.connections
  let lib := lib.newSSL s.CTX s.SID
  let s := { s with SSL := some ssl }
  (s, (s.setSNIClientHost lib).call (.connect ssl))

/-- `setSSLCertificate`, `setSSLCertificatePassword`, `setSSLPrivateKeyFile`, `setSSLClientCAFile`
and `isSSLValid`: each hands `CTX` to the library. -/
def useCTX (s : CNetHandlerSocket) (lib : Library) : Library := lib.call (.setContext s.CTX)

/-- `setSSLCertificateMem`, `setSSLPrivateKeyFileMem` -/
def useMem (s : CNetHandlerSocket) (data : Option Nat) (lib : Library) : Library :=
  lib.call (.useObject s.CTX data)

def setSSLMutual (s : CNetHandlerSocket) (enabled : Bool) (lib : Library) :
    CNetHandlerSocket × Library :=
  ({ s with SSLMutual := enabled }, s.useCTX lib)

def setSNIEnabled (s : CNetHandlerSocket) (enabled : Bool) (lib : Library) :
    CNetHandlerSocket × Library :=
  ({ s with SNIEnabled := enabled }, s.useCTX lib)

def openClientCertificateX509 (s : CNetHandlerSocket) (lib : Library) : Library :=
  lib.call (.getPeerCertificate s.SSL)

def getClientCertificate (s : CNetHandlerSocket) (lib : Library) : Library :=
  if s.SSLMutual then lib.call (.getPeerCertificate s.SSL) else lib

def readBuffer (s : CNetHandlerSocket) (lib : Library) : Library :=
  if s.SSLEnabled then lib.call (.read s.SSL) else lib

def writeBuffer (s : CNetHandlerSocket) (lib : Library) : Library :=
  if s.SSLEnabled then lib.call (.write s.SSL) else lib

/-- The destructor, which calls `cleanupSSL`. -/
def destroy (s : CNetHandlerSocket) (lib : Library) : Library :=
  if s.SSLEnabled then (lib.freeSSL s.SSL).freeCTX s.CTXRoot s.CTX else lib

/-- `connect`; `connected` is whether the host is found and `::connect` returns 0. -/
def connect (s : CNetHandlerSocket) (connected : Bool) (lib : Library) :
    CNetHandlerSocket × Library :=
  if connected && s.SSLEnabled then s.connectSSL lib else (s, lib)

/-- `accept` of a connection that is not refused: the new socket, and the listening one. -/
def accept (s : CNetHandlerSocket) (sid sock : Int) (hello : Option Str) (lib : Library) :
    CNetHandlerSocket × CNetHandlerSocket × Library :=
  let (s, lib) := if s.SSLEnabled then s.acceptSSL sid hello lib else (s, lib)
  let (sock, lib) := new sid sock s.SSLEnabled s.SSLMutual (s.ChildCTX.or s.CTX) s.SSL lib
  (sock, { s with SSL := none }, lib)

end CNetHandlerSocket

/-! ### The sockets of a program -/

/-- What a program calls on a socket. -/
inductive Call where
  | useCTX
  | useMem (data : Option Nat)
  | setSSLMutual (enabled : Bool)
  | setSNIEnabled (enabled : Bool)
  | addSSLCertificateToSNI (obj : SNIObj)
  | setSNIClientHost
  | openClientCertificateX509
  | getClientCertificate
  | connect (connected : Bool)
  | accept (refused : Bool) (sid sock : Int) (hello : Option Str)
  | readBuffer
  | writeBuffer
  | delete
  deriving DecidableEq, Repr

inductive Op where
  | createSocket (ssl : Bool) (sock : Int)
  | call (n : Nat) (call : Call)
  | parsePKCS12 (there : Bool)
  deriving DecidableEq, Repr

/-- The sockets that have not been deleted, numbered as they are made. -/
structure Program where
  sockets : Nat → Option CNetHandlerSocket
  made : Nat
  lib : Library

namespace Program

def new : Program := { sockets := fun _ => none, made := 0, lib := {} }

def put (p : Program) (n : Nat) (result : CNetHandlerSocket × Library) : Program :=
  { p with sockets := Function.update p.sockets n (some result.1), lib := result.2 }

def add (p : Program) (result : CNetHandlerSocket × Library) : Program :=
  { p.put p.made result with made := p.made + 1 }

def call (p : Program) (n : Nat) (s : CNetHandlerSocket) : Call → Program
  | .useCTX => p.put n (s, s.useCTX p.lib)
  | .useMem data => p.put n (s, s.useMem data p.lib)
  | .setSSLMutual enabled => p.put n (s.setSSLMutual enabled p.lib)
  | .setSNIEnabled enabled => p.put n (s.setSNIEnabled enabled p.lib)
  | .addSSLCertificateToSNI obj => p.put n ({ s with SNIList := s.SNIList ++ [obj] }, p.lib)
  | .setSNIClientHost => p.put n (s, s.setSNIClientHost p.lib)
  | .openClientCertificateX509 => p.put n (s, s.openClientCertificateX509 p.lib)
  | .getClientCertificate => p.put n (s, s.getClientCertificate p.lib)
  | .connect connected => p.put n (s.connect connected p.lib)
  | .accept refused sid sock hello =>
    if refused then p
    else
      let (sock, s, lib) := s.accept sid sock hello p.lib
      (p.put n (s, lib)).add (sock, lib)
  | .readBuffer => p.put n (s, s.readBuffer p.lib)
  | .writeBuffer => p.put n (s, s.writeBuffer p.lib)
  | .delete => { p with sockets := Function.update p.sockets n none, lib := s.destroy p.lib }

def next (p : Program) : Op → Program
  | .createSocket ssl sock => p.add (CNetHandlerSocket.new 0 sock ssl false none none p.lib)
  | .call n call =>
    match p.sockets n with
    | some s => p.call n s call
    | none => p
  | .parsePKCS12 there => { p with lib := p.lib.call (.parsePKCS12 there) }

/-- Nothing is called on a socket that has been deleted. What sets up a context is not called on a
socket that `accept` has returned with a context of another, and a socket connects or accepts while
it has no connection itself. -/
def Allowed (p : Program) : Op → Prop
  | .createSocket _ _ | .parsePKCS12 _ => True
  | .call n call => ∃ s, p.sockets n = some s ∧
    match call with
    | .useCTX | .useMem _ | .setSSLMutual _ | .setSNIEnabled _ | .addSSLCertificateToSNI _ =>
      s.CTXRoot = true
    | .connect _ | .accept _ _ _ _ => s.CTXRoot = true ∧ s.SSL = none
    | .setSNIClientHost | .openClientCertificateX509 | .getClientCertificate | .readBuffer
    | .writeBuffer | .delete => True

def Step (p : Program) (op : Op) (q : Program) : Prop := p.Allowed op ∧ q = p.next op

end Program

/-! ### The requests of the client -/

/-- What a call in `runRequest` does, where the socket of the client is the only one; `connected` is
what `connect` returns. -/
def ofSetup (sock : Int) (connected : Bool) : Setup.Call → List Op
  | .createSocket ssl => [.createSocket ssl sock]
  | .setSSLCertificate _ | .setSSLPrivateKeyFile _ | .setSSLCertificatePassword _ =>
    [.call 0 .useCTX]
  | .setSSLCertificateMem data | .setSSLPrivateKeyFileMem data => [.call 0 (.useMem data)]
  | .setSSLMutual b => [.call 0 (.setSSLMutual b)]
  | .parsePKCS12 pf => [.parsePKCS12 pf]
  | .connect _ _ => [.call 0 (.connect connected)]
  | .setThrowExceptions _ | .mutexSSL | .setTimeout _ => []

end Solusek.Tls
