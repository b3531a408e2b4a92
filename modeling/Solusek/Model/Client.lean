import Solusek.Model.Message
import Solusek.Model.Socket
import Solusek.Model.StringUtil

/-!
# The client

The part of `CClient::runRequest` behind `connect`: the request it writes and the response it
reads. `host` and `path` are the ones it has taken from its endpoint.
-/

namespace Solusek.Client

open Socket

structure CClient where
  Method : Str
  AdditionalHeaders : StdMap

/-! ### The request writer -/

/-- The text up to the empty line. -/
def CClient.requestHead (client : CClient) (host path body : Str) : Str :=
  let data := client.Method ++ " ".toList ++ path ++ " HTTP/1.1".toList ++ "\r\n".toList ++
    "Host: ".toList ++ host ++ "\r\n".toList
  let data := client.AdditionalHeaders.entries.foldl
    (fun data it => data ++ it.1 ++ ": ".toList ++ it.2 ++ "\r\n".toList) data
  let data :=
    if body.length > 0 then
      data ++ "Content-length: ".toList ++ printNat body.length ++ "\r\n".toList
    else data
  data ++ "\r\n".toList

/-- The loop that writes the body, from `done` on. -/
def bodyWriter (net : Net) (body : Str) (done : Nat) (tx : Str) : Except Exn Unit × Str :=
  if done < body.length then
    let chunk := if done + 1024 > body.length then body.length - done else 1024
    match net.writeBuffer tx ((body.drop done).take chunk) chunk with
    | (.ok _, tx) => bodyWriter net body (done + chunk) tx
    | answer => answer
  else (.ok (), tx)
termination_by body.length - done
decreasing_by split <;> omega

def CClient.writeRequest (client : CClient) (net : Net) (host path body : Str) :
    Except Exn Unit × Str :=
  let data := client.requestHead host path body
  match net.writeBuffer [] data data.length with
  | (.ok _, tx) => bodyWriter net body 0 tx
  | answer => answer

/-! ### The response reader -/

/-- `code` and the map `headers`, in which a name that is missing has the empty value. -/
structure Head where
  code : Int := 0
  headers : Str → Str := fun _ => []

def responseLine (head : Head) (line : Str) : Except Exn Head :=
  if find "HTTP/1.1".toList line ≠ none then do
    let i1 := toInt (findChar line ' ')
    let scode ← substr line (toSize (intSucc i1))
    let i2 := toInt (findChar scode ' ')
    let scode ← substr scode 0 (some (toSize i2))
    pure { head with code := atoi (cstr scode) }
  else do
    let i1 := toInt (findChar line ':')
    let var ← substr line 0 (some (toSize i1))
    let val ← substr line (toSize (intSucc i1))
    let var := trim (strtolower var)
    pure { head with headers := Function.update head.headers var (trim val) }

/-- The loop over the header bytes. What it has found stays when a read throws. -/
def headLoop (eof : Int) (line : Str) (ex : Nat) (head : Head) : Str → Head × Except Exn Str
  | [] => (head, .error (.int eof))
  | buf :: rx =>
    if buf = '\r' then headLoop eof line ex head rx
    else if buf = '\n' then
      match responseLine head line with
      | .error e => (head, .error e)
      | .ok head => if ex + 1 = 2 then (head, .ok rx) else headLoop eof [] (ex + 1) head rx
    else headLoop eof (line ++ cstr [buf]) 0 head rx

/-- `n` reads of one byte: what they append to `resp`, and the bytes left. -/
def readBytes (eof : Int) : Nat → Str → Str × Except Exn Str
  | 0, rx => ([], .ok rx)
  | _ + 1, [] => ([], .error (.int eof))
  | n + 1, buf :: rx =>
    let (resp, rest) := readBytes eof n rx
    (buf :: resp, rest)

/-- The bytes up to CR LF, without CR. -/
def chunkLine (eof : Int) (acc : Str) (prev : Char) : Str → Except Exn (Str × Str)
  | [] => .error (.int eof)
  | buf :: rx =>
    if prev = '\r' ∧ buf = '\n' then .ok (acc, rx)
    else chunkLine eof (if buf ≠ '\r' then acc ++ [buf] else acc) buf rx

def hexDigit (c : Char) : Option Nat :=
  if c.isDigit then some (c.toNat - '0'.toNat)
  else if 'a' ≤ c ∧ c ≤ 'f' then some (c.toNat - 'a'.toNat + 10)
  else if 'A' ≤ c ∧ c ≤ 'F' then some (c.toNat - 'A'.toNat + 10)
  else none

def hexDigits (s : Str) : List Nat := (s.map hexDigit).takeWhile Option.isSome |>.filterMap id

/-- The digits that `strtoul(s, 0, 16)` reads behind the white space and the sign, as a number;
`none` without a digit. -/
def hexNumber (s : Str) : Option Nat :=
  let s := match s with
    | '0' :: 'x' :: t => t
    | '0' :: 'X' :: t => t
    | t => t
  if hexDigits s = [] then none else some ((hexDigits s).foldl (fun n d => 16 * n + d) 0)

/-- `sscanf(s, "%x", &chunkSize)`: the value stored, if one is. A number too large for
`unsigned long` counts as `ULONG_MAX`, with either sign. -/
def scanHex (s : Str) : Option Nat :=
  match s.dropWhile isspace with
  | '-' :: t => (hexNumber t).map fun n =>
    if n < 2 ^ 64 then (-(n : Int) % 2 ^ 32).toNat else 2 ^ 32 - 1
  | '+' :: t => (hexNumber t).map fun n => min (2 ^ 64 - 1) n % 2 ^ 32
  | t => (hexNumber t).map fun n => min (2 ^ 64 - 1) n % 2 ^ 32

theorem chunkLine_shorter {eof : Int} {acc : Str} {prev : Char} {rx line rest : Str}
    (read : chunkLine eof acc prev rx = .ok (line, rest)) : rest.length < rx.length := by
  induction rx generalizing acc prev with
  | nil => simp [chunkLine] at read
  | cons buf rx ih =>
    unfold chunkLine at read
    split at read
    · have same := (Prod.mk.inj (Except.ok.inj read)).2
      simp [← same]
    · exact Nat.lt_succ_of_lt (ih read)

theorem readBytes_shorter {eof : Int} {n : Nat} {rx resp rest : Str}
    (read : readBytes eof n rx = (resp, .ok rest)) : rest.length ≤ rx.length := by
  induction n generalizing rx resp with
  | zero =>
    simp only [readBytes, Prod.mk.injEq, Except.ok.injEq] at read
    simp [← read.2]
  | succ n ih =>
    cases rx with
    | nil => simp [readBytes] at read
    | cons buf rx =>
      simp only [readBytes, Prod.mk.injEq] at read
      exact Nat.le_succ_of_le (ih (Prod.ext rfl read.2))

/-- The loop over chunks; every throw ends it. A size line that is no number leaves
`chunkSize` as it was. -/
def chunkLoop (net : Net) (chunkSize : Nat) (resp rx : Str) : Str :=
  match _line : chunkLine net.eof [] '\x00' rx with
  | .error _ => resp
  | .ok (acc, rest) =>
    let chunkSize := (scanHex (cstr acc)).getD chunkSize
    if chunkSize = 0 then resp
    else
      match _body : readBytes net.eof chunkSize rest with
      | (more, .error _) => resp ++ more
      | (more, .ok rest') =>
        match _gap : net.readBuffer rest' 2 with
        | .error _ => resp ++ more
        | .ok (_, rest'') => chunkLoop net chunkSize (resp ++ more) rest''
termination_by rx.length
decreasing_by
  have first := chunkLine_shorter ‹chunkLine _ _ _ _ = _›
  have second := readBytes_shorter ‹readBytes _ _ _ = _›
  have third := Net.readBuffer_shorter ‹net.readBuffer _ _ = _›
  omega

/-- The response read from `rx`; `garbage` is what `chunkSize` holds before it is set. Only an
`int` is caught, so other exceptions leave the function. -/
def readResponse (net : Net) (garbage : Nat) (rx : Str) : Except Exn MResponse :=
  match headLoop net.eof [] 0 {} rx with
  | (head, .error (.int _)) => .ok { Code := head.code }
  | (_, .error e) => .error e
  | (head, .ok rx) =>
    let contentType := head.headers "content-type".toList
    let contentType :=
      if contentType.length > 0 then contentType else "application/json".toList
    let ret : MResponse := { Code := head.code, ContentType := contentType }
    let contentLength := head.headers "content-length".toList
    if contentLength.length > 0 then
      let clen := (atoi (cstr contentLength) % 2 ^ 32).toNat
      match readBytes net.eof clen rx with
      | (resp, .error _) => .ok { ret with Body := resp }
      | (resp, .ok _) =>
        .ok { ret with Body := resp, Location := head.headers "location".toList }
    else if (head.headers "transfer-encoding".toList).length > 0 then
      .ok { ret with
        Body := chunkLoop net garbage [] rx
        Location := head.headers "location".toList }
    else .ok { ret with Location := head.headers "location".toList }

end Solusek.Client
