import Solusek.Model.Message
import Solusek.Model.Socket
import Solusek.Model.StringUtil

/-!
# A server node

`CNode`: what it reads from a connection, the request it builds and the response it writes.
Reading a single byte takes the next one, or throws (`readBuffer_one`).
-/

namespace Solusek.Node

open Socket

structure CNode where
  Method : Str := []
  Path : Str := []
  QueryString : Str := []
  ProtocolVersion : Str := []
  Body : Str := []
  Headers : List CVarVal := []
  deriving DecidableEq, Repr

/-! ### Reading -/

def headerLine (acc : Str) : Except Exn CVarVal :=
  match findChar acc ':' with
  | some sp => do
    let var ← substr acc 0 (some sp)
    let val ← substr acc (sp + 1)
    pure { Var := var.map Char.toLower, Val := trim val }
  | none => .ok { Var := acc }

/-- The loop of `readHeader`: the headers, and the bytes it has not read. -/
def headerLoop (eof : Int) (acc : Str) (ex : Nat) (Headers : List CVarVal) :
    Str → Except Exn (List CVarVal × Str)
  | [] => .error (.int eof)
  | buf :: rx =>
    if buf = '\r' ∨ buf = '\x00' then headerLoop eof acc ex Headers rx
    else if buf = '\n' then
      match headerLine acc with
      | .error e => .error e
      | .ok vv =>
        if ex + 1 = 2 then .ok (Headers ++ [vv], rx)
        else headerLoop eof [] (ex + 1) (Headers ++ [vv]) rx
    else headerLoop eof (acc ++ [buf]) 0 Headers rx

/-- What `readHeader` does with the first line. -/
def requestLine (line : Str) : Except Exn CNode :=
  match findChar line ' ' with
  | none => .error .exception
  | some sp => do
    let Method ← substr line 0 (some sp)
    let seg2 ← substr line (sp + 1)
    let sp := findChar seg2 ' '
    let Path ← substr seg2 0 sp
    let ProtocolVersion ← substr seg2 (posSucc sp)
    match findChar Path '?' with
    | none => pure { Method, Path, ProtocolVersion }
    | some sp =>
      let QueryString ← substr Path (sp + 1)
      let Path ← substr Path 0 (some sp)
      pure { Method, Path, QueryString, ProtocolVersion }

def readHeader (net : Net) (rx : Str) : Except Exn (CNode × Str) :=
  match headerLoop net.eof [] 0 [] rx with
  | .error e => .error e
  | .ok ([], rx) => .ok ({}, rx)
  | .ok (first :: rest, rx) =>
    match requestLine first.Var with
    | .error e => .error e
    | .ok node => .ok ({ node with Headers := first :: rest }, rx)

def CNode.getHeader (node : CNode) (name : Str) : Option CVarVal :=
  let tmp := (strtolower (cstr name)).map Char.toLower
  node.Headers.find? fun it => strtolower it.Var == tmp

/-- The loop of `readBody` over the `unsigned int n`. A `read` of 1024 bytes is appended as a
C string. -/
def bodyLoop (net : Net) (len n : Nat) (Body rx : Str) : Except Exn (Str × Str) :=
  if n < len then
    match found : net.readBuffer rx 1024 with
    | .error e => .error e
    | .ok (buf, rest) => bodyLoop net len ((n + buf.length) % 2 ^ 32) (Body ++ cstr buf) rest
  else .ok (Body, rx)
termination_by rx.length
decreasing_by exact Net.readBuffer_shorter found

def readBody (net : Net) (node : CNode) (rx : Str) : Except Exn (CNode × Str) :=
  match node.getHeader "content-length".toList with
  | none => .ok ({ node with Body := [] }, rx)
  | some vv =>
    let len := (atoi (cstr vv.Val) % 2 ^ 32).toNat
    match bodyLoop net len 0 [] rx with
    | .error e => .error e
    | .ok (Body, rx) => .ok ({ node with Body }, rx)

/-! ### The request -/

/-- One cookie of the loop in `run`; `np` is an `unsigned int` and so never `npos`. -/
def parseCookie (ck : Str) : Except Exn MCookie := do
  let ck := trim ck
  let np := toUnsigned (findChar ck '=')
  let cname ← substr ck 0 (some np)
  let cval ← substr ck ((np + 1) % 2 ^ 32)
  pure { Name := cname, Value := cval }

/-- What one round of the loop cuts off `deccum`, and what it leaves. The `unsigned int sp` is
never `npos` either. -/
def sliceCookie (deccum : Str) : Str × Str :=
  let sp := toUnsigned (findChar deccum ';')
  if sp < deccum.length then
    (deccum.take sp, (deccum.drop ((sp + 1) % 2 ^ 32)).take (deccum.length - sp - 1))
  else (deccum, [])

theorem sliceCookie_shorter {deccum : Str} (nonempty : deccum ≠ []) :
    (sliceCookie deccum).2.length < deccum.length := by
  have positive := List.length_pos_of_ne_nil nonempty
  unfold sliceCookie
  simp only
  split
  · rw [List.length_take]
    omega
  · exact positive

/-- The cookie loop of `run`. -/
def cookieLoop (request : MRequest) (deccum : Str) : Except Exn MRequest :=
  if _empty : deccum = [] then .ok request
  else
    match parseCookie (sliceCookie deccum).1 with
    | .error e => .error e
    | .ok cookie =>
      let request :=
        if cookie.Name = "SolusekSID".toList then { request with SID := cookie.Value } else request
      cookieLoop { request with Cookies := request.Cookies ++ [cookie] } (sliceCookie deccum).2
termination_by deccum.length
decreasing_by exact sliceCookie_shorter ‹_›

/-- The request that `run` hands to an endpoint. -/
def buildRequest (node : CNode) : Except Exn MRequest :=
  let request : MRequest := { Body := node.Body, QueryString := node.QueryString }
  let request := match node.getHeader "X-SSL-Client-CN".toList with
    | some vv => { request with SSLClientCN := vv.Val }
    | none => request
  let filled := match node.getHeader "Cookie".toList with
    | some vv => cookieLoop request vv.Val
    | none => .ok request
  match filled with
  | .error e => .error e
  | .ok request =>
    .ok { request with
      Host := match node.getHeader "Host".toList with
        | some vv => vv.Val
        | none => [] }

/-! ### Writing -/

/-- Broken-down time: what `asctime` prints, in the ranges `gmtime` keeps. -/
structure Tm where
  tm_sec : Fin 61
  tm_min : Fin 60
  tm_hour : Fin 24
  tm_mday : Fin 32
  tm_mon : Fin 12
  tm_year : Int
  tm_wday : Fin 7
  year_int : -2 ^ 31 ≤ tm_year + 1900 ∧ tm_year + 1900 < 2 ^ 31

def weekdays : List Str :=
  ["Sun", "Mon", "Tue", "Wed", "Thu", "Fri", "Sat"].map String.toList

def months : List Str :=
  ["Jan", "Feb", "Mar", "Apr", "May", "Jun", "Jul", "Aug", "Sep", "Oct", "Nov", "Dec"].map
    String.toList

/-- `%2d` with the padding `fill`. -/
def pad (fill : Char) (n : Nat) : Str := if n < 10 then fill :: printNat n else printNat n

/-- `"%.3s %.3s %2d %.2d:%.2d:%.2d %d\n"`. -/
def asctime (tm : Tm) : Str :=
  weekdays.getD tm.tm_wday [] ++ " ".toList ++ months.getD tm.tm_mon [] ++ " ".toList ++
    pad ' ' tm.tm_mday ++ " ".toList ++ pad '0' tm.tm_hour ++ ":".toList ++ pad '0' tm.tm_min ++
    ":".toList ++ pad '0' tm.tm_sec ++ " ".toList ++ printInt (tm.tm_year + 1900) ++ "\n".toList

def responseDate (response : MResponse) (tm : Tm) : Str :=
  if response.Date.length = 0 then
    let sdt := asctime tm
    sdt.take (sdt.length - 1)
  else response.Date

def sidParts (SID : Str) : List Str :=
  if SID.length > 0 then
    ["Set-Cookie: ".toList, "SolusekSID".toList, "=".toList, SID, "; SameSite=Strict".toList,
      "; Path=/".toList, "\r\n".toList]
  else []

def cookieParts (cookie : MCookie) : List Str :=
  ["Set-Cookie: ".toList, cookie.Name, "=".toList, cookie.Value, "; SameSite=Strict".toList] ++
    (if cookie.Path.length > 0 then ["; Path=".toList, cookie.Path] else []) ++ ["\r\n".toList]

/-- The arguments of the calls of `writeString` in `writeResponse`, in their order; `tm` is
the time a response without a date is given. -/
def responseParts (response : MResponse) (tm : Tm) : List Str :=
  let codeBuf := printInt response.Code
  let codeDesc := response.getCodeDescription
  let sdt := responseDate response tm
  let lenBuf := printNat (response.Body.length % 2 ^ 32)
  ["HTTP/1.1 ".toList, codeBuf, " ".toList, codeDesc, "\r\n".toList,
    "Date: ".toList, sdt, "\r\n".toList,
    "Content-Type: ".toList, response.ContentType, "\r\n".toList,
    "Content-Length: ".toList, lenBuf, "\r\n".toList,
    "Last-Modified: ".toList, sdt, "\r\n".toList] ++
  sidParts response.SID ++
  response.Cookies.flatMap cookieParts ++
  ["Server: Solusek/1.0 (Linux)\r\n".toList, "Connection: close\r\n".toList, "\r\n".toList,
    response.Body]

def writeResponse (net : Net) (response : MResponse) (tm : Tm) : Except Exn Unit × Str :=
  net.writeAll [] (responseParts response tm)

end Solusek.Node
