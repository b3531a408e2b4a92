import Solusek.Model.StringUtil

/-!
# Static files

`CServer::getStaticEndpoint` and `getStaticIndex` with the file readers of `file_util.cpp`.
What `fopen` finds under a name is a parameter, and every call of `fopen` and `fclose` is
recorded. The two functions call each other, so they take fuel.
-/

namespace Solusek.Static

structure MStaticEndpoint where
  Host : Str := []
  Path : Str := []
  deriving DecidableEq, Repr

structure MMimeType where
  Ext : Str
  «Type» : Str
  IsText : Bool
  deriving DecidableEq, Repr

structure MEndpoint where
  «Type» : Int
  Path : Str
  Method : Str
  Contents : Str
  Ext : Str
  ContentType : Str
  Date : Str
  deriving DecidableEq, Repr

/-- The part of `CServer` that static files depend on. -/
structure StaticServer where
  StaticEndpoints : List MStaticEndpoint := []
  StaticIndexes : List Str := []
  MimeTypes : List MMimeType := []
  deriving DecidableEq, Repr

/-- What `fopen` finds under a name: a file with its bytes, or a directory, which it opens as well.
There `ftell` gives `size` for the end, whatever that is, and `fread` reads nothing. -/
inductive Entry where
  | file (data : Str)
  | directory (size : Nat)
  deriving DecidableEq, Repr

structure FileSystem where
  entry : Str → Option Entry
  modTime : Str → Str

inductive FileEvent where
  | fopen (name : Str) (found : Bool)
  | fclose (name : Str)
  deriving DecidableEq, Repr

-- `undefined` is an index outside a string, or a buffer that nothing was read into (or that
-- there is no memory for), `diverges` a call that does not return.
inductive Fault where
  | exn (e : Exn)
  | undefined
  | diverges
  deriving DecidableEq, Repr

abbrev Answer (α : Type) := Except Fault α × List FileEvent

/-! ### Readers -/

def readTextFile (fs : FileSystem) (fname : Str) : Answer Str :=
  match fs.entry (cstr fname) with
  | none => (.ok [], [.fopen (cstr fname) false])
  | some (.file data) => (.ok data, [.fopen (cstr fname) true, .fclose (cstr fname)])
  | some (.directory size) =>
    if 0 < size then (.error .undefined, [.fopen (cstr fname) true])
    else (.ok [], [.fopen (cstr fname) true, .fclose (cstr fname)])

/-- The loop of `readBinaryFile` over the `unsigned int n`: `rest` is what `fread` has not
delivered yet, and what is left of `buf` when it delivers less than `rd`. -/
def readBinaryLoop (len : Nat) : Nat → Nat → Nat → Str → Str → Str → Option Str
  | 0, _, _, _, _, _ => none
  | fuel + 1, n, rd, buf, rest, r =>
    if n < len then
      let rd := if (n + 512) % 2 ^ 32 > len then len - n else rd
      let buf := rest.take rd ++ buf.drop (rest.take rd).length
      readBinaryLoop len fuel ((n + 512) % 2 ^ 32) rd buf (rest.drop rd) (r ++ buf.take rd)
    else some r

/-- The file is not closed. A loop that goes on for longer than the file never ends. -/
def readBinaryFile (fs : FileSystem) (fname : Str) : Answer Str :=
  match fs.entry (cstr fname) with
  | none => (.ok [], [.fopen (cstr fname) false])
  | some (.file data) =>
    match readBinaryLoop data.length (data.length + 1) 0 512 [] data [] with
    | some r => (.ok r, [.fopen (cstr fname) true])
    | none => (.error .diverges, [.fopen (cstr fname) true])
  | some (.directory size) =>
    match readBinaryLoop size (size + 1) 0 512 [] [] [] with
    | some _ =>
      if 0 < size then (.error .undefined, [.fopen (cstr fname) true])
      else (.ok [], [.fopen (cstr fname) true])
    | none => (.error .diverges, [.fopen (cstr fname) true])

namespace StaticServer

/-! ### Registration -/

def registerStaticIndex (srv : StaticServer) (name : Str) : StaticServer :=
  { srv with StaticIndexes := srv.StaticIndexes ++ [cstr name] }

-- `if (host) … = strtolower(host)`, in `addStaticDirectory` and in `getStaticEndpoint`.
def lowerHost : Option Str → Str
  | some host => strtolower (cstr host)
  | none => []

def addStaticDirectory (srv : StaticServer) (path : Str) (host : Option Str) : StaticServer :=
  let ep : MStaticEndpoint := { Host := lowerHost host, Path := cstr path }
  { srv with StaticEndpoints := srv.StaticEndpoints ++ [ep] }

def addMimeType (srv : StaticServer) (type : MMimeType) : StaticServer :=
  { srv with MimeTypes := srv.MimeTypes ++ [type] }

def removeMimeType (srv : StaticServer) (ext : Str) : StaticServer :=
  { srv with MimeTypes := srv.MimeTypes.eraseP fun it => it.Ext == ext }

def getMimeType (srv : StaticServer) (ext : Str) : Option MMimeType :=
  srv.MimeTypes.find? fun it => it.Ext == ext

/-! ### Lookup -/

/-- The loop over `StaticEndpoints`: the path of the first one that takes the host. -/
def staticPath (shost : Str) : List MStaticEndpoint → Str
  | [] => []
  | it :: rest =>
    if it.Host.length = 0 then it.Path
    else if it.Host.length ≤ shost.length ∧ shost.drop (shost.length - it.Host.length) = it.Host
    then it.Path
    else staticPath shost rest

/-- One of the three branches that open the file `dpath` and read it with `read`. -/
def openEndpoint (fs : FileSystem) (dpath method ext : Str) (read : Str → Answer Str)
    (contentType : Str) : Answer (Option MEndpoint) :=
  match fs.entry (cstr dpath) with
  | none => (.ok none, [.fopen (cstr dpath) false])
  | some _ =>
    let (contents, events) := read dpath
    (contents.map fun Contents => some
      { «Type» := 1, Path := dpath, Method := cstr method, Contents, Ext := ext,
        ContentType := contentType, Date := fs.modTime dpath },
      [.fopen (cstr dpath) true, .fclose (cstr dpath)] ++ events)

/-- `std::string::npos`, as the 32-bit `np` is compared with it. -/
def npos : Nat := 2 ^ 64 - 1

/-- What `getStaticEndpoint` does with the extension of the file name. -/
def openByExtension (srv : StaticServer) (fs : FileSystem) (dpath method ext : Str) :
    Answer (Option MEndpoint) :=
  match srv.getMimeType ext with
  | some mime =>
    if mime.IsText then openEndpoint fs dpath method ext (readTextFile fs) mime.Type
    else openEndpoint fs dpath method ext (readBinaryFile fs) mime.Type
  | none =>
    openEndpoint fs dpath method ext (readBinaryFile fs) "application/force-download".toList

/-- What `getStaticEndpoint` does once it has a directory. -/
def openBelow (srv : StaticServer) (fs : FileSystem) (staticPath fpath method : Str) :
    Answer (Option MEndpoint) :=
  let np := toUnsigned (findChar fpath '?')
  let cut := if np ≠ npos then do
      let _qs ← substr fpath ((np + 1) % 2 ^ 32)
      substr fpath 0 (some np)
    else .ok fpath
  match cut with
  | .error e => (.error (.exn e), [])
  | .ok fpath =>
    let dpath := staticPath ++ "/".toList ++ fpath
    let np := toUnsigned (findLastOf fpath '/')
    if np = npos then (.ok none, [])
    else
      match substr fpath ((np + 1) % 2 ^ 32) with
      | .error e => (.error (.exn e), [])
      | .ok fname =>
        let np := toUnsigned (findLastOf fname '.')
        if np ≠ npos then
          match substr fname ((np + 1) % 2 ^ 32) with
          | .error e => (.error (.exn e), [])
          | .ok ext => openByExtension srv fs dpath method (strtolower ext)
        else (.ok none, [])

/-- `endpoint` is the call of `getStaticEndpoint` on one path. -/
def getStaticIndex (endpoint : Str → Answer (Option MEndpoint)) (path : Str) :
    List Str → Answer (Option MEndpoint)
  | [] => (.ok none, [])
  | it :: rest =>
    match it.getLast? with
    | none => (.error .undefined, [])
    | some '/' => getStaticIndex endpoint path rest
    | some _ =>
      match endpoint (path ++ it) with
      | (.ok none, events) =>
        let (result, later) := getStaticIndex endpoint path rest
        (result, events ++ later)
      | answer => answer

def getStaticEndpoint (srv : StaticServer) (fs : FileSystem) :
    Nat → Str → Str → Option Str → Answer (Option MEndpoint)
  | 0, _, _, _ => (.error .diverges, [])
  | fuel + 1, path, method, host =>
    let fpath := cstr path
    if find "..".toList fpath ≠ none then (.ok none, [])
    else
      match fpath.getLast? with
      | none => (.error .undefined, [])
      | some '/' =>
        getStaticIndex (fun path => getStaticEndpoint srv fs fuel path method host) fpath
          srv.StaticIndexes
      | some _ =>
        let staticPath := staticPath (lowerHost host) srv.StaticEndpoints
        if staticPath.length = 0 then (.ok none, [])
        else openBelow srv fs staticPath fpath method

end StaticServer

end Solusek.Static
