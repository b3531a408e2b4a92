import Solusek.Model.Client

/-!
# The settings of the client

The setters of `CClient`, and `runRequest` up to the last byte it writes; the response is read
in `Solusek.Client`. The objects behind `void*` are numbers, `none` is the null pointer, and
what a certificate object goes through when it is replaced is left out.
-/

namespace Solusek.Setup

open Socket

structure CClient extends Client.CClient where
  Endpoint : Str
  UseSSL : Bool
  Verbose : Bool
  CertFileName : Str
  KeyFileName : Str
  KeyPassword : Str
  PKCS12FileName : Str
  PKCS12Password : Str
  CertMem : Option Nat
  KeyMem : Option Nat
  Timeout : Int

/-- The calls on the socket up to `connect`. -/
inductive Call where
  | createSocket (ssl : Bool)
  | setThrowExceptions (b : Bool)
  | setSSLCertificate (filename : Str)
  | setSSLPrivateKeyFile (filename : Str)
  | setSSLCertificatePassword (password : Str)
  | setSSLCertificateMem (data : Option Nat)
  | setSSLPrivateKeyFileMem (data : Option Nat)
  /-- `PKCS12_parse`, which is no call on the socket; `pf` is whether its first argument is not
  null. -/
  | parsePKCS12 (pf : Bool)
  | mutexSSL
  | setSSLMutual (b : Bool)
  | setTimeout (timeout : Int)
  | connect (host : Str) (port : Int)
  deriving DecidableEq, Repr

/-- What `PKCS12_parse` makes of a structure for a password, where it returns 1: the certificate and
the key, either of which may be missing. -/
abbrev PKCS12 := Str → Option (Option Nat × Option Nat)

/-- What a request meets: the files, as `fopen` and `d2i_PKCS12_fp` find them, and the connection.
`some none` is a file that holds no PKCS12 structure. -/
structure World where
  pkcs12 : Str → Option (Option PKCS12)
  net : Net

/-- What `runRequest` takes from the endpoint behind "://". -/
structure Target where
  host : Str
  port : Int
  path : Str
  deriving DecidableEq, Repr

/-- What goes out: the calls that set the socket up, and what the writes make of the request. -/
structure Request where
  calls : List Call
  target : Target
  written : Except Exn Unit × Str

/-! ### The endpoint -/

/-- `host` without the user name in front of it. -/
def withoutAuth (host : Str) : Except Exn Str :=
  let nt := findChar host '/'
  match findChar host '@' with
  -- `n1 < nt`, where `nt` may be `npos`
  | some n1 => if nt.all (n1 < ·) then substr host (n1 + 1) else pure host
  | none => pure host

/-- The text behind the colon: the port, and the path or "/". -/
def portAndPath (host sport : Str) : Except Exn Target :=
  match findChar sport '/' with
  | some n3 => do
    let path ← substr sport n3
    let sport ← substr sport 0 (some n3)
    pure { host, port := atoi (cstr sport), path }
  | none => pure { host, port := atoi (cstr sport), path := "/".toList }

/-- `host` is the text behind "://", `port` the port of the protocol. -/
def target (port : Int) (host : Str) : Except Exn Target := do
  let host ← withoutAuth host
  match findChar host ':' with
  | some n2 =>
    let sport ← substr host (n2 + 1)
    let host ← substr host 0 (some n2)
    portAndPath host sport
  | none =>
    match findChar host '/' with
    | some n2 =>
      let path ← substr host n2
      let host ← substr host 0 (some n2)
      pure { host, port, path }
    | none => pure { host, port, path := "/".toList }

namespace CClient

def new : CClient where
  Method := "POST".toList
  AdditionalHeaders := StdMap.empty.set "Content-type".toList "application/json".toList
  Endpoint := []
  UseSSL := false
  Verbose := false
  CertFileName := []
  KeyFileName := []
  KeyPassword := []
  PKCS12FileName := []
  PKCS12Password := []
  CertMem := none
  KeyMem := none
  Timeout := 30000

/-! ### The request -/

/-- What becomes of the PKCS12 file. -/
def setPKCS12 (c : CClient) (world : World) : List Call :=
  match world.pkcs12 (cstr c.PKCS12FileName) with
  | some (some pf) => .parsePKCS12 true ::
    match pf (cstr c.PKCS12Password) with
    | some (cert, pkey) => [.setSSLCertificateMem cert, .setSSLPrivateKeyFileMem pkey]
    | none => []
  | some none => [.parsePKCS12 false]
  | none => []

/-- The calls between the socket and the connection. -/
def settings (c : CClient) (world : World) : List Call :=
  List.flatten [
    if c.CertFileName.length > 0 then [.setSSLCertificate (cstr c.CertFileName)] else [],
    if c.KeyFileName.length > 0 then
      [.setSSLPrivateKeyFile (cstr c.KeyFileName), .setSSLCertificatePassword (cstr c.KeyPassword)]
    else [],
    if c.PKCS12FileName.length > 0 then c.setPKCS12 world else [],
    if c.CertMem.isSome then [.setSSLCertificateMem c.CertMem] else [],
    if c.KeyMem.isSome then [.setSSLPrivateKeyFileMem c.KeyMem] else [],
    if c.UseSSL then [.mutexSSL, .setSSLMutual true] else []]

def setup (c : CClient) (world : World) (target : Target) : List Call :=
  [.createSocket c.UseSSL, .setThrowExceptions true] ++ c.settings world ++
    [.setTimeout c.Timeout, .connect (cstr target.host) target.port]

def request (c : CClient) (world : World) (target : Target) (body : Str) : Request where
  calls := c.setup world target
  target := target
  written := c.toCClient.writeRequest world.net target.host target.path body

/-- The client afterwards, and what goes out; nothing does where the endpoint has no "://". -/
def runRequest (c : CClient) (world : World) (body : Str) :
    CClient × Except Exn (Option Request) :=
  match find "://".toList c.Endpoint with
  | none => (c, .ok none)
  | some n1 =>
    match substr c.Endpoint 0 (some n1) with
    | .error e => (c, .error e)
    | .ok protocol =>
      let port := if protocol = "https".toList then 443 else 80
      let c := if protocol = "https".toList then { c with UseSSL := true } else c
      match substr c.Endpoint (n1 + 3) >>= target port with
      | .error e => (c, .error e)
      | .ok target => (c, .ok (some (c.request world target body)))

end CClient

/-! ### Calls on a client -/

inductive Op where
  | setTimeout (timeout : Int)
  | setVerbose (b : Bool)
  | setMethod (s : Str)
  | setUseSSL (b : Bool)
  | setEndpoint (s : Str)
  | setHeader (name val : Str)
  | removeHeader (name : Str)
  | setSSLCertificate (fn : Str)
  | setSSLKeyFile (fn password : Str)
  | setSSLCertificateMem (fn : Option Nat)
  | setSSLKeyFileMem (fn : Option Nat) (password : Str)
  | setSSLPKCS12 (fn password : Str)
  | runRequest (world : World) (body : Str)

def Op.run (c : CClient) : Op → CClient
  | setTimeout timeout => { c with Timeout := timeout }
  | setVerbose b => { c with Verbose := b }
  | setMethod s => { c with Method := s }
  | setUseSSL b => { c with UseSSL := b }
  | setEndpoint s => { c with Endpoint := s }
  | setHeader name val => { c with AdditionalHeaders := c.AdditionalHeaders.set name val }
  | removeHeader name => { c with AdditionalHeaders := c.AdditionalHeaders.erase name }
  | setSSLCertificate fn => { c with CertFileName := fn }
  | setSSLKeyFile fn password => { c with KeyFileName := fn, KeyPassword := password }
  | setSSLCertificateMem fn => { c with CertMem := fn }
  | setSSLKeyFileMem fn password => { c with KeyMem := fn, KeyPassword := password }
  | setSSLPKCS12 fn password => { c with PKCS12FileName := fn, PKCS12Password := password }
  | runRequest world body => (c.runRequest world body).1

end Solusek.Setup
