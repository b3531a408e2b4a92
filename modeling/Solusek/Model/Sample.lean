import Solusek.Model.Serve
import Solusek.Model.Session

/-!
# The sample server

The endpoints of `sample-server/main.cpp` and the server that its `main` sets up. The state that
the callbacks share is the server's sessions; `clock k` is the time at which session `k` is
started.
-/

namespace Solusek.Sample

open Session Serve

def setCookieEndpoint (s : SessionTable) (_data : MRequest) : MResponse × SessionTable :=
  let cookie : MCookie := { Name := "test".toList, Value := "value".toList, Path := "/".toList }
  ({ Cookies := [cookie], Body := "Cookie set!".toList }, s)

def getCookieEndpoint (s : SessionTable) (data : MRequest) : MResponse × SessionTable :=
  let c := data.getCookie "test".toList
  if !c.None then ({ Body := "Cookie content: ".toList ++ c.Value }, s)
  else ({ Body := "Cookie not found.".toList }, s)

def setSessionEndpoint (clock : Nat → Nat) (s : SessionTable) (_data : MRequest) :
    MResponse × SessionTable :=
  let ses := s.heap.length
  let s := s.startSession (clock ses)
  let s := s.setStringValue ses "var1".toList "val1".toList
  let s := s.setStringValue ses "var2".toList "val2".toList
  ({ Code := 200, Body := "Session set.".toList, SID := (s.idOf ses).getD [] }, s)

def getSessionEndpoint (s : SessionTable) (data : MRequest) : MResponse × SessionTable :=
  match s.getSession data.SID with
  | some ses =>
    let body := "Session found!\n\n".toList
    let body := body ++ "var1 = ".toList ++ s.getStringValue ses "var1".toList ++ "\n".toList
    let body := body ++ "var2 = ".toList ++ s.getStringValue ses "var2".toList ++ "\n".toList
    ({ Code := 200, Body := body }, s)
  | none =>
    ({ Code := 200, Body := "NO session found. Looking for ID: ".toList ++ data.SID }, s)

/-- The calls of `main`. -/
def setup (clock : Nat → Nat) : List (Setup SessionTable) :=
  [.addStaticDirectory "../static/solusek/".toList (some "solusek.com".toList),
    .addStaticDirectory "../static/".toList none,
    .registerStaticIndex "index.html".toList,
    .registerEndpoint
      { Path := "/api/cookie/set".toList, Method := "GET".toList, Callback := setCookieEndpoint },
    .registerEndpoint
      { Path := "/api/cookie/get".toList, Method := "GET".toList, Callback := getCookieEndpoint },
    .registerEndpoint
      { Path := "/api/session/set".toList, Method := "GET".toList
        Callback := setSessionEndpoint clock },
    .registerEndpoint
      { Path := "/api/session/get".toList, Method := "GET".toList, Callback := getSessionEndpoint }]

def server (clock : Nat → Nat) : CServer SessionTable := configured (setup clock)

end Solusek.Sample
