import Solusek.Model.Listener

/-!
# The certificates of the listening socket

`addSSLCertificateToSNI` with everything it opens and reads, `cleanupSNI`, and the destructor
as far as it concerns them. The objects of one kind are numbered as they are made: the `X509`
and the `EVP_PKEY` that `PEM_read_*` returns, and the `FILE` of each `fopen`.
-/

namespace Solusek.Certificates

open Listening (SNIObj)

/-- What the reads of a file give: whether the first one is a certificate, and the same for
each read behind it up to the end of the file. -/
structure CertFile where
  first : Bool
  behind : List Bool
  deriving DecidableEq, Repr

/-- What a call finds under its two names: nothing, or a file, and whether that holds a key. -/
structure World where
  cert : Option CertFile
  key : Option Bool
  deriving DecidableEq, Repr

structure CNetHandlerSocket where
  SSLEnabled : Bool
  SNIList : List SNIObj := []
  certs : Nat := 0
  keys : Nat := 0
  files : Nat := 0
  freedCerts : List Nat := []
  freedKeys : List Nat := []
  closedFiles : List Nat := []
  deriving DecidableEq, Repr

namespace CNetHandlerSocket

variable (s : CNetHandlerSocket)

def fopen : Nat × CNetHandlerSocket := (s.files, { s with files := s.files + 1 })

def fclose (file : Nat) : CNetHandlerSocket := { s with closedFiles := s.closedFiles ++ [file] }

def readX509 (good : Bool) : Option Nat × CNetHandlerSocket :=
  if good then (some s.certs, { s with certs := s.certs + 1 }) else (none, s)

def readPrivateKey (good : Bool) : Option Nat × CNetHandlerSocket :=
  if good then (some s.keys, { s with keys := s.keys + 1 }) else (none, s)

def freeX509 (cert : Nat) : CNetHandlerSocket := { s with freedCerts := s.freedCerts ++ [cert] }

def freeKey (key : Nat) : CNetHandlerSocket := { s with freedKeys := s.freedKeys ++ [key] }

/-- The loop over the rest of the file. -/
def readAux (s : CNetHandlerSocket) : List Bool → List Nat × CNetHandlerSocket
  | [] => ([], s)
  | good :: rest =>
    match s.readX509 good with
    | (none, s) => readAux s rest
    | (some acert, s) =>
      let (aux, s) := readAux s rest
      (acert :: aux, s)

-- A bad certificate returns with the file open, a missing key with the certificates read, and
-- a bad key frees the first certificate alone.
def addSSLCertificateToSNI (host : Str) (world : World) (isMutual : Bool) : CNetHandlerSocket :=
  match world.cert with
  | none => s
  | some found =>
    let (file, s) := s.fopen
    match s.readX509 found.first with
    | (none, s) => s
    | (some cert, s) =>
      let (aux, s) := s.readAux found.behind
      let s := s.fclose file
      match world.key with
      | none => s
      | some good =>
        let (file, s) := s.fopen
        let (key, s) := s.readPrivateKey good
        let s := s.fclose file
        match key with
        | none => s.freeX509 cert
        | some key =>
          let obj : SNIObj :=
            { Host := cstr host, Cert := cert, Key := key, Aux := aux, Mutual := isMutual }
          { s with SNIList := s.SNIList ++ [obj] }

-- `SNIList.empty()` asks whether the list is empty and leaves it as it is.
def cleanupSNI : CNetHandlerSocket :=
  s.SNIList.foldl (fun s it => it.Aux.foldl freeX509 ((s.freeX509 it.Cert).freeKey it.Key)) s

/-- The destructor, which calls `cleanupSSL`. -/
def destroy : CNetHandlerSocket := if s.SSLEnabled then s.cleanupSNI else s

/-- The entry that `_sni_callback` finds for a name. -/
def sniEntry (cname : Str) : Option SNIObj := s.SNIList.find? fun it => cstr cname == it.Host

end CNetHandlerSocket

inductive Call where
  | addSSLCertificateToSNI (host : Str) (world : World) (isMutual : Bool)
  | cleanupSNI
  deriving DecidableEq, Repr

def CNetHandlerSocket.next (s : CNetHandlerSocket) : Call → CNetHandlerSocket
  | .addSSLCertificateToSNI host world isMutual => s.addSSLCertificateToSNI host world isMutual
  | .cleanupSNI => s.cleanupSNI

/-- An SSL-enabled socket after these calls. -/
def after (calls : List Call) : CNetHandlerSocket :=
  calls.foldl CNetHandlerSocket.next { SSLEnabled := true }

end Solusek.Certificates
