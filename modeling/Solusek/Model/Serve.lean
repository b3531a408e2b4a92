import Solusek.Lib.Interleavings
import Solusek.Model.Node
import Solusek.Model.Static

/-!
# Serving a connection

`CNode::run` from the first byte it reads to the last one it writes, and the endpoints of
`CServer`. The callbacks share a state of the program, such as its sessions. The sources leave it
to the callbacks to keep out of each other's way: what a callback does to the state is one step
here. The socket and the node are given up at the end of every run, which is left out.
-/

namespace Solusek.Serve

open Socket Static

variable {σ : Type*}

structure MEndpoint (σ : Type*) where
  Path : Str
  Method : Str
  Callback : σ → MRequest → MResponse × σ

structure CServer (σ : Type*) extends StaticServer where
  Endpoints : List (MEndpoint σ) := []

/-- The constructor of `MMimeType`; an empty `type` is the default. -/
def mimeType (ext : Str) (isText : Bool) (type : Str) : MMimeType where
  Ext := ext
  IsText := isText
  «Type» :=
    if type.length = 0 then
      if isText then "text/".toList ++ ext else "application/".toList ++ ext
    else type

/-- What `addDefaultMimeTypes` adds, in its order. -/
def defaultMimeTypes : List MMimeType :=
  [mimeType "html".toList true [],
    mimeType "htm".toList true [],
    mimeType "txt".toList true [],
    mimeType "js".toList true "text/javascript".toList,
    mimeType "css".toList true [],
    mimeType "png".toList false "image/png".toList,
    mimeType "jpg".toList false "image/jpeg".toList,
    mimeType "jpeg".toList false "image/jpeg".toList,
    mimeType "gif".toList false "image/gif".toList,
    mimeType "bmp".toList false "image/bmp".toList,
    mimeType "svg".toList false "image/svg".toList]

namespace CServer

def addDefaultMimeTypes (srv : CServer σ) : CServer σ :=
  let filled := defaultMimeTypes.foldl StaticServer.addMimeType srv.toStaticServer
  { srv with toStaticServer := filled }

/-- The constructor, as far as requests are concerned. -/
def new : CServer σ := addDefaultMimeTypes {}

def registerStaticIndex (srv : CServer σ) (name : Str) : CServer σ :=
  { srv with toStaticServer := srv.toStaticServer.registerStaticIndex name }

def addStaticDirectory (srv : CServer σ) (path : Str) (host : Option Str) : CServer σ :=
  { srv with toStaticServer := srv.toStaticServer.addStaticDirectory path host }

def registerEndpoint (srv : CServer σ) (ep : MEndpoint σ) : CServer σ :=
  { srv with Endpoints := srv.Endpoints ++ [ep] }

def getEndpoint (srv : CServer σ) (path method : Str) : Option (MEndpoint σ) :=
  srv.Endpoints.find? fun it => it.Path == cstr path && it.Method == cstr method

end CServer

/-- A call on a server before it runs. -/
inductive Setup (σ : Type*) where
  | registerEndpoint (ep : MEndpoint σ)
  | registerStaticIndex (name : Str)
  | addStaticDirectory (path : Str) (host : Option Str)

def Setup.apply (srv : CServer σ) : Setup σ → CServer σ
  | .registerEndpoint ep => srv.registerEndpoint ep
  | .registerStaticIndex name => srv.registerStaticIndex name
  | .addStaticDirectory path host => srv.addStaticDirectory path host

/-- A new server after these calls. -/
def configured (calls : List (Setup σ)) : CServer σ := calls.foldl Setup.apply .new

/-- What a node meets: its connection with the bytes that come in, and the time it answers at. -/
structure Connection where
  net : Net
  rx : Str
  tm : Node.Tm

/-! ### The parts of `run` -/

/-- The two reads in their `try`. Both `catch` clauses clear `Path`, and only a `Path` that is not
empty makes `run` look at anything else. -/
def received (c : Connection) : Node.CNode :=
  match Node.readHeader c.net c.rx with
  | .error _ => {}
  | .ok (node, rx) =>
    match Node.readBody c.net node rx with
    | .error _ => { node with Path := [] }
    | .ok (node, _) => node

def hostOf (node : Node.CNode) : Str :=
  match node.getHeader "Host".toList with
  | some vv => vv.Val
  | none => []

/-- The static file that answers a node, if there is one. A nested call finds a plain path. -/
def staticAnswer (srv : CServer σ) (fs : FileSystem) (node : Node.CNode) :
    Answer (Option Static.MEndpoint) :=
  srv.getStaticEndpoint fs 2 node.Path node.Method (some (hostOf node))

/-- The response for a node that has found no endpoint. -/
def pageOf : Option Static.MEndpoint → Except Fault MResponse
  | some ep => .ok { Code := 200, Body := ep.Contents, ContentType := ep.ContentType }
  | none =>
    match MErrorResponse 404 "Endpoint not found.".toList with
    | none => .error .diverges
    | some (.error e) => .error (.exn e)
    | some (.ok response) => .ok response

/-- What a node leaves behind: the response it is to send, if any, and what it did to files. An
exception here is caught nowhere. -/
abbrev Reply := Except Fault (Option MResponse) × List FileEvent

/-- The response to what has been read; only a callback changes the state. -/
def reply (srv : CServer σ) (fs : FileSystem) (node : Node.CNode) (s : σ) : Reply × σ :=
  if node.Path.length > 0 then
    match srv.getEndpoint node.Path node.Method with
    | some ep =>
      match Node.buildRequest node with
      | .error e => ((.error (.exn e), []), s)
      | .ok request =>
        ((.ok (some (ep.Callback s request).1), []), (ep.Callback s request).2)
    | none =>
      match staticAnswer srv fs node with
      | (.error e, events) => ((.error e, events), s)
      | (.ok ep, events) => (((pageOf ep).map some, events), s)
  else ((.ok none, []), s)

/-- The bytes that go out; where a write fails `run` goes on without the rest. -/
def sent (c : Connection) : Option MResponse → Str
  | some response => (Node.writeResponse c.net response c.tm).2
  | none => []

/-- What is seen of a connection: its bytes, and the files. -/
abbrev Outcome := Except Fault Str × List FileEvent

/-! ### One connection and many -/

/-- A node's thread: it reads its request, finds its response and writes it. -/
def task (srv : CServer σ) (fs : FileSystem) :
    Interleaving.Task Connection (Connection × Node.CNode) (Connection × Reply) Outcome σ where
  before c := (c, received c)
  shared a s := ((a.1, (reply srv fs a.2 s).1), (reply srv fs a.2 s).2)
  after b := (b.2.1.map (sent b.1), b.2.2)

def CNode.run (srv : CServer σ) (fs : FileSystem) (c : Connection) (s : σ) : Outcome × σ :=
  let answer := reply srv fs (received c) s
  ((answer.1.1.map (sent c), answer.1.2), answer.2)

abbrev Thread := Interleaving.Phase Connection (Connection × Node.CNode) (Connection × Reply) Outcome

abbrev State (σ : Type*) :=
  Interleaving.State Connection (Connection × Node.CNode) (Connection × Reply) Outcome σ

/-- The fault that has stopped a thread. -/
def Stopped (thread : Thread) (e : Fault) : Prop := ∃ b, thread = .stepped b ∧ b.2.1 = .error e

/-- A thread is made for a connection, or makes its next step. A thread that does not come back
makes none, and no thread does after any other fault. -/
structure Step (srv : CServer σ) (fs : FileSystem) (s : State σ)
    (act : Interleaving.Action Connection) (t : State σ) : Prop where
  running : ∀ thread ∈ s.threads, ∀ e, Stopped thread e → e = .diverges
  turn : ∀ n, act = .advance n → ∀ thread e, s.threads[n]? = some thread → ¬ Stopped thread e
  taken : (task srv fs).Step s act t

/-- The connections one after another. -/
def serveAll (srv : CServer σ) (fs : FileSystem) : List Connection → σ → List Outcome × σ
  | [], s => ([], s)
  | c :: rest, s =>
    ((CNode.run srv fs c s).1 :: (serveAll srv fs rest (CNode.run srv fs c s).2).1,
      (serveAll srv fs rest (CNode.run srv fs c s).2).2)

end Solusek.Serve
