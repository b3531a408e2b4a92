import Solusek.Model.Cxx

/-!
# The listening socket

The part of `CNetHandlerSocket` that an incoming connection meets: the address lists, the
handshake with its server name callback, and `accept`. Certificates and keys are numbers. A
call of `SSL_CTX_new` makes the context with the next number.
-/

namespace Solusek.Listening

structure IPAddressItem where
  Addr : Str := []
  From : Str := []
  To : Str := []
  deriving DecidableEq, Repr

structure SNIObj where
  Host : Str
  Cert : Nat
  Key : Nat
  Aux : List Nat
  Mutual : Bool
  deriving DecidableEq, Repr

/-- A context: its number and what it was set up with. -/
structure SSL_CTX where
  id : Nat
  Cert : Nat
  Key : Nat
  Aux : List Nat
  Mutual : Bool
  deriving DecidableEq, Repr

structure CNetHandlerSocket where
  SSLEnabled : Bool
  SSLMutual : Bool
  CTX : Option SSL_CTX
  ChildCTX : Option SSL_CTX
  SNIEnabled : Bool
  SNIList : List SNIObj
  SNIHostName : Str
  ClientIPAddr : Str
  Blacklist : List IPAddressItem
  Whitelist : List IPAddressItem
  deriving DecidableEq, Repr

/-! ### Addresses -/

/-- An `int` stored in a `short`. -/
def toShort (i : Int) : Int := i.bmod (2 ^ 16)

-- The `unsigned int np` is never `npos`.
def isAddrInRange (addr From To : Str) : Except Exn Bool := do
  let np := toUnsigned (findLastOf From '.')
  let fromPrefix ← substr From 0 (some np)
  if To.length < np then pure false
  else
    let addrPrefix ← substr addr 0 (some np)
    if fromPrefix ≠ addrPrefix then pure false
    else
      let fromText ← substr From ((np + 1) % 2 ^ 32)
      let toText ← substr To ((np + 1) % 2 ^ 32)
      let isText ← substr addr ((np + 1) % 2 ^ 32)
      let fromi := toShort (atoi (cstr fromText))
      let toi := toShort (atoi (cstr toText))
      let isi := toShort (atoi (cstr isText))
      pure (decide (isi ≤ toi) && decide (isi ≥ fromi))

/-- The test that both loops make on an item. -/
def IPAddressItem.covers (it : IPAddressItem) (addr : Str) : Except Exn Bool :=
  if it.Addr = addr then .ok true else isAddrInRange addr it.From it.To

/-- The loop of `isBlacklisted` and `isWhitelisted`. -/
def covered (addr : Str) : List IPAddressItem → Except Exn Bool
  | [] => .ok false
  | it :: rest =>
    match it.covers addr with
    | .error e => .error e
    | .ok true => .ok true
    | .ok false => covered addr rest

namespace CNetHandlerSocket

/-- The constructor; `ctx` is the context it is given, or the one that `setupSSL` makes. -/
def new (ssl sslMutual : Bool) (ctx : Option SSL_CTX) (ipaddr : Str) : CNetHandlerSocket where
  SSLEnabled := ssl
  SSLMutual := sslMutual
  CTX := ctx
  ChildCTX := none
  SNIEnabled := false
  SNIList := []
  SNIHostName := []
  ClientIPAddr := ipaddr
  Blacklist := []
  Whitelist := []

variable (s : CNetHandlerSocket)

def addBlacklist (item : IPAddressItem) : CNetHandlerSocket :=
  { s with Blacklist := s.Blacklist ++ [item] }

def addWhitelist (item : IPAddressItem) : CNetHandlerSocket :=
  { s with Whitelist := s.Whitelist ++ [item] }

-- `Blacklist.empty()` asks whether the list is empty and leaves it as it is.
def clearBlacklist : CNetHandlerSocket := s

def clearWhitelist : CNetHandlerSocket := s

def isBlacklisted (addr : Str) : Except Exn Bool := covered addr s.Blacklist

def isWhitelisted (addr : Str) : Except Exn Bool := covered addr s.Whitelist

/-- The test of `accept`: `true` where the connection is closed at once. -/
def refuses (ipaddr : Str) : Except Exn Bool := do
  let white ← s.isWhitelisted ipaddr
  if !white then s.isBlacklisted ipaddr else pure false

/-! ### Server names -/

def setSNIEnabled (enabled : Bool) : CNetHandlerSocket := { s with SNIEnabled := enabled }

def setChildCTX (ctx : SSL_CTX) : CNetHandlerSocket := { s with ChildCTX := some ctx }

def setSNIHostName (name : Str) : CNetHandlerSocket := { s with SNIHostName := name }

def getSNIHostName : Str := s.SNIHostName

/-- `addSSLCertificateToSNI`, once it has read the certificates and the key. -/
def addSSLCertificateToSNI (obj : SNIObj) : CNetHandlerSocket :=
  { s with SNIList := s.SNIList ++ [obj] }

end CNetHandlerSocket

/-- The context the callback sets up for an entry. -/
def SNIObj.context (it : SNIObj) (id : Nat) : SSL_CTX where
  id := id
  Cert := it.Cert
  Key := it.Key
  Aux := it.Aux
  Mutual := it.Mutual

/-- A listening socket, and how many contexts have been made. -/
structure Listener where
  socket : CNetHandlerSocket
  contexts : Nat
  deriving DecidableEq, Repr

namespace Listener

/-- `_sni_callback` on the name that `SSL_get_servername` gives, `none` for null. -/
def sniCallback (l : Listener) : Option Str → Listener
  | none => l
  | some cname =>
    let name := cstr cname
    match l.socket.SNIList.find? fun it => name == it.Host with
    | some it =>
      { socket := (l.socket.setChildCTX (it.context l.contexts)).setSNIHostName name
        contexts := l.contexts + 1 }
    | none => l

/-- `setupSSLSocket` for an accepted connection whose client sends `hello`: the handshake calls
the callback where one is set. -/
def setupSSLSocket (l : Listener) (hello : Option Str) : Listener :=
  if l.socket.SNIEnabled then l.sniCallback hello else l

/-- `accept` for a connection from `ipaddr`: the new socket, `none` where it is refused. -/
def accept (l : Listener) (ipaddr : Str) (hello : Option Str) :
    Except Exn (Option CNetHandlerSocket) × Listener :=
  match l.socket.refuses ipaddr with
  | .error e => (.error e, l)
  | .ok true => (.ok none, l)
  | .ok false =>
    let l := if l.socket.SSLEnabled then l.setupSSLSocket hello else l
    let s := l.socket
    let sock := CNetHandlerSocket.new s.SSLEnabled s.SSLMutual
      (match s.ChildCTX with
        | some ctx => some ctx
        | none => s.CTX) ipaddr
    (.ok (some (if s.SSLEnabled then sock.setSNIHostName s.SNIHostName else sock)), l)

end Listener

end Solusek.Listening
