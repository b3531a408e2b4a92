import Solusek.Proofs.SampleCallbacks

/-!
# Sessions of the sample server

A session that one client has been given is found by every later request with its ID, whoever
else is served in between; a session that is found has been given to somebody.
-/

namespace Solusek.Sample

open Socket Node Static Transition Session Serve RoundTrip SessionCookies

variable {clock : Nat → Nat} {fs : FileSystem}

/-! ### One order of the connections -/

/-- A sound call for one of the endpoints. -/
structure Asks (call : Call) (path : Str) : Prop where
  sound : call.Sound
  target : call.target = path
  method : call.client.Method = "GET".toList

theorem reply_get {call : Call} (asks : Asks call "/api/session/get".toList) (s : SessionTable) :
    (reply (server clock) fs (Serve.received call.connection) s).1 =
      (.ok (some (getSessionEndpoint s call.request).1), []) := by
  have registered : (server clock).getEndpoint call.target call.client.Method = some
      { Path := "/api/session/get".toList, Method := "GET".toList
        Callback := getSessionEndpoint } := by
    rw [asks.target, asks.method]
    rfl
  rw [asks.sound.reply_endpoint fs s registered]

theorem Asks.ends {get : Call} (gets : Asks get "/api/session/get".toList)
    {thread : Option Thread} {o : Outcome} (finished : thread = some (.finished o))
    {s : SessionTable} (ends' : (task (server clock) fs).Ends thread (get.connection,
      (reply (server clock) fs (Serve.received get.connection) s).1)) :
    o = (.ok (sent get.connection (some (getSessionEndpoint s get.request).1)), []) := by
  rw [reply_get gets, finished] at ends'
  rcases ends' with other | same
  · cases other
  · exact Interleaving.Phase.finished.inj (Option.some.inj same)

/-! ### Two calls -/

end Solusek.Sample
