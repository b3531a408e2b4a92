import Solusek.Proofs.RequestHeaders

/-!
# Requests

What `CClient` writes is what `CNode` reads, however the bytes arrive: the request line, every
header and the body. A host name with a line feed would be a header line of its own.
-/

namespace Solusek.RoundTrip

open Socket Lines Texts Client Node

/-! ### Requests that arrive -/

/-- What `readHeader` and `readBody` make of the bytes of a request, however they arrive. -/
def Delivered (client : CClient) (host path body : Str) : Prop :=
  ∀ net peer : Net, SendsInFull net → ∃ node rest,
    receive peer (client.writeRequest net host path body).2 = .ok (node, rest) ∧
    Received client path body node

def received (client : CClient) (host path body : Str) : CNode where
  Method := client.Method
  Path := path.takeWhile (· ≠ '?')
  QueryString := (path.dropWhile (· ≠ '?')).drop 1
  ProtocolVersion := "HTTP/1.1".toList
  Body := body
  Headers := headersOf client host path body

namespace Request

variable {client : CClient} {host path body : Str}

theorem readHeader_eq (request : Request client host path body) (oneLine : '\n' ∉ host)
    (peer : Net) : readHeader peer (client.requestHead host path body ++ body) =
      .ok ({ received client host path body with Body := [] }, body) := by
  have first : requestLine (firstLine client path) = .ok
      { Method := client.Method, Path := path.takeWhile (· ≠ '?')
        QueryString := (path.dropWhile (· ≠ '?')).drop 1
        ProtocolVersion := "HTTP/1.1".toList } :=
    requestLine_eq request.method.2.1 request.path.2.1
  unfold readHeader
  rw [request.headerLoop_request oneLine peer.eof]
  simp only [headersOf, List.cons_append, first]
  rfl

theorem lookup_contentLength (request : Request client host path body) {node : CNode}
    (same : node.Headers = headersOf client host path body) :
    node.getHeader "content-length".toList =
      if body.length > 0 then
        some { Var := "content-length".toList, Val := printNat body.length }
      else none := by
  have low : "content-length".toList.map Char.toLower = "content-length".toList := by simp
  rw [getHeader_eq node (show '\x00' ∉ "content-length".toList by decide), low, same,
    request.find_contentLength]

theorem readBody_eq (request : Request client host path body) (peer : Net) {node : CNode}
    (same : node.Headers = headersOf client host path body) :
    readBody peer node body = .ok ({ node with Body := body }, []) := by
  unfold readBody
  rw [request.lookup_contentLength same]
  by_cases filled : body.length > 0
  · have digits : cstr (printNat body.length) = printNat body.length :=
      cstr_eq (printNat_printed _).2.2
    have small := request.body.2
    have len : (atoi (printNat body.length) % 2 ^ 32).toNat = body.length := by
      rw [atoi_printNat small]
      omega
    have read := bodyLoop_all peer small 0 [] request.body.1 (Nat.zero_add _)
    rw [if_pos filled]
    simp only [digits, len, read, List.nil_append]
  · have empty : body = [] := List.eq_nil_of_length_eq_zero (by omega)
    rw [if_neg filled]
    simp only [empty]

theorem received_sound (request : Request client host path body) :
    Received client path body (received client host path body) := by
  refine ⟨rfl, rfl, rfl, rfl, ?_, rfl⟩
  intro it member name same
  have terminated : '\x00' ∉ name := by
    rw [← mem_lower (by simp), same, mem_lower (by simp)]
    exact (request.names it member).2.2.1
  rw [getHeader_eq _ terminated]
  show ((headersOf client host path body).find? (named (lower name))).map CVarVal.Val = some it.2
  rw [same, request.find_header member]
  rfl

theorem received_host (request : Request client host path body) (cr : '\r' ∉ host)
    (nul : '\x00' ∉ host) {name : Str} (same : lower name = "host".toList) :
    ((received client host path body).getHeader name).map CVarVal.Val = some host := by
  have shown : shownHost host = host := by
    apply List.filter_eq_self.mpr
    intro c member
    have notCr : c ≠ '\r' := fun equal => cr (equal ▸ member)
    have notNul : c ≠ '\x00' := fun equal => nul (equal ▸ member)
    simp [notCr, notNul]
  have terminated : '\x00' ∉ name := by
    rw [← mem_lower (by simp), same]
    decide
  rw [getHeader_eq _ terminated]
  show ((headersOf client host path body).find? (named (lower name))).map CVarVal.Val = some host
  rw [same, find_host, shown, trim_space request.host.2]
  rfl

end Request

/-- A request whose host holds no line feed and whose head is shorter than 2^31 bytes is read
by the node as the client means it. -/
theorem request_delivered {client : CClient} {host path body : Str}
    (request : Request client host path body) (oneLine : '\n' ∉ host)
    (short : (client.requestHead host path body).length < 2 ^ 31) (net peer : Net)
    (full : SendsInFull net) :
    (client.writeRequest net host path body).1 = .ok () ∧
    ∃ node, receive peer (client.writeRequest net host path body).2 = .ok (node, []) ∧
      Received client path body node ∧
      ('\r' ∉ host → '\x00' ∉ host → ∀ name, lower name = "host".toList →
        (node.getHeader name).map CVarVal.Val = some host) := by
  rw [writeRequest_full full short]
  refine ⟨rfl, received client host path body, ?_, request.received_sound,
    fun cr nul name same => request.received_host cr nul same⟩
  unfold receive
  rw [request.readHeader_eq oneLine peer]
  exact request.readBody_eq peer rfl

/-! ### Inputs -/

/-- `POST` with two headers. -/
def postRequest : CClient where
  Method := "POST".toList
  AdditionalHeaders := ⟨[("Accept".toList, "text/html; q=0.5".toList),
    ("X-Name".toList, "Ada: 1".toList)], by decide⟩

def postTarget : Str := "/list?by=name&page=2".toList

def postBody : Str := "\x7b\"k\": 1\x7d\r\n\r\nx".toList

theorem postRequest_request : Request postRequest "a.example:80".toList postTarget postBody := by
  have trimmed : Trimmed "a.example:80".toList ∧ Trimmed "text/html; q=0.5".toList ∧
      Trimmed "Ada: 1".toList := by simp [Trimmed, isspace]
  refine ⟨by decide, by decide, ⟨by decide, trimmed.1⟩, ?_, ?_, by decide, ?_, by decide⟩
  · intro it member
    rcases List.mem_pair.mp member with rfl | rfl
    · exact ⟨by decide, by decide, by decide, by simp [isspace]⟩
    · exact ⟨by decide, by decide, by decide, by simp [isspace]⟩
  · intro it member
    rcases List.mem_pair.mp member with rfl | rfl
    · exact ⟨trimmed.2.1, by decide⟩
    · exact ⟨trimmed.2.2, by decide⟩
  · intro it member
    rcases List.mem_pair.mp member with rfl | rfl
    · exact ⟨by decide, by decide⟩
    · exact ⟨by decide, by decide⟩

theorem request_delivered_post : ∃ node,
    receive fullNet (postRequest.writeRequest fullNet "a.example:80".toList postTarget postBody).2 =
      .ok (node, []) ∧
    Received postRequest postTarget postBody node ∧
    (node.getHeader "HOST".toList).map CVarVal.Val = some "a.example:80".toList := by
  have short : (postRequest.requestHead "a.example:80".toList postTarget postBody).length <
      2 ^ 31 := by
    decide +kernel
  obtain ⟨_, node, read, sound, header⟩ :=
    request_delivered postRequest_request (by decide) short fullNet fullNet fullNet_full
  exact ⟨node, read, sound, header (by decide) (by decide) "HOST".toList (by decide)⟩

/-- `GET` of `path` with the single header `k`. -/
def getRequest (v : Str) : CClient where
  Method := "GET".toList
  AdditionalHeaders := ⟨[("k".toList, v)], by simp⟩

theorem getRequest_request {v host : Str} (value : Trimmed v ∧ Printed v)
    (host' : host ≠ [] ∧ Trimmed host) : Request (getRequest v) host "/".toList [] := by
  have method : "GET".toList ≠ [] ∧ ' ' ∉ "GET".toList ∧ ':' ∉ "GET".toList ∧
      Printed "GET".toList := by decide
  have name : "k".toList ≠ [] ∧ ':' ∉ "k".toList ∧ '\x00' ∉ "k".toList ∧
      ∀ c ∈ "k".toList, isspace c = false := by
    refine ⟨by decide, by decide, by decide, fun c member => ?_⟩
    rw [List.mem_singleton.mp (show c ∈ ['k'] from member)]
    rfl
  have apart : lower "k".toList ≠ "host".toList ∧ lower "k".toList ≠ "content-length".toList := by
    simp [lower]
  refine ⟨method, by decide, host', ?_, ?_, by simp [getRequest], ?_, by simp⟩
  · intro it member
    obtain rfl := List.mem_singleton.mp member
    exact name
  · intro it member
    obtain rfl := List.mem_singleton.mp member
    exact value
  · intro it member
    obtain rfl := List.mem_singleton.mp member
    exact apart

theorem letter_value {n : Nat} :
    Trimmed (List.replicate n 'x') ∧ Printed (List.replicate n 'x') := by
  have printed : Printed (List.replicate n 'x') := ⟨not_mem_replicate (by decide) n,
    not_mem_replicate (by decide) n, not_mem_replicate (by decide) n⟩
  exact ⟨ends_replicate (P := fun c => isspace c = false) rfl n, printed⟩

theorem getRequest_head (v host : Str) : (getRequest v).requestHead host "/".toList [] =
    "GET / HTTP/1.1\r\nHost: ".toList ++ host ++ "\r\nk: ".toList ++ v ++ "\r\n\r\n".toList := by
  simp [CClient.requestHead, getRequest]

theorem getRequest_length (v host : Str) :
    ((getRequest v).requestHead host "/".toList []).length = host.length + v.length + 31 := by
  have fixed : "GET / HTTP/1.1\r\nHost: ".toList.length = 22 ∧ "\r\nk: ".toList.length = 5 ∧
      "\r\n\r\n".toList.length = 4 := by decide
  rw [getRequest_head]
  simp only [List.length_append]
  omega

def brokenNode : CNode where
  Method := "GET".toList
  Path := "/".toList
  ProtocolVersion := "HTTP/1.1".toList
  Headers := [{ Var := firstLine (getRequest "x".toList) "/".toList },
    { Var := "host".toList, Val := "x".toList }, { Var := [] }]

theorem brokenNode_getHeader {name : Str} (terminated : '\x00' ∉ name)
    (solid : ' ' ∉ lower name) (other : lower name ≠ "host".toList) (nonempty : lower name ≠ []) :
    brokenNode.getHeader name = none := by
  rw [getHeader_eq _ terminated]
  show brokenNode.Headers.find? (named (lower name)) = none
  unfold brokenNode
  rw [List.find?_cons_of_neg (firstLine_skipped _ _ solid),
    List.find?_cons_of_neg (host_skipped other _), List.find?_cons_of_neg (blank_skipped nonempty)]
  rfl

/-- A line feed in the host ends its line, and an empty line the whole head. -/
theorem host_breaks : ¬ Delivered (getRequest "x".toList) "x\n\nx".toList "/".toList [] := by
  intro delivered
  obtain ⟨node, rest, read, sound⟩ := delivered fullNet fullNet fullNet_full
  have short : ((getRequest "x".toList).requestHead "x\n\nx".toList "/".toList []).length < 2 ^ 31 := by
    rw [getRequest_length]
    simp
  have head : readHeader fullNet ("GET / HTTP/1.1\r\nHost: ".toList ++ "x\n\nx".toList ++
      "\r\nk: ".toList ++ "x".toList ++ "\r\n\r\n".toList ++ []) =
      .ok (brokenNode, "x\r\nk: x\r\n\r\n".toList) := rfl
  have length := brokenNode_getHeader (show '\x00' ∉ "content-length".toList by decide)
    (by simp [lower]) (by simp [lower]) (by simp [lower])
  have header := brokenNode_getHeader (show '\x00' ∉ "k".toList by decide)
    (by simp [lower]) (by simp [lower]) (by simp [lower])
  rw [writeRequest_full fullNet_full short, getRequest_head] at read
  unfold receive at read
  rw [head] at read
  simp only [readBody, length] at read
  obtain ⟨rfl, _⟩ := Prod.mk.inj (Except.ok.inj read)
  have value := sound.header ("k".toList, "x".toList) List.mem_cons_self "k".toList rfl
  have missing : ({ brokenNode with Body := [] } : CNode).getHeader "k".toList = none := header
  rw [missing] at value
  exact absurd value (by simp)

theorem receive_nothing (net : Net) : receive net [] = .error (.int net.eof) := rfl

theorem fullNet_refuses {len : Int} (negative : len < 0) : fullNet.send 0 len = -1 := by
  show (if 0 ≤ len then len else -1) = -1
  rw [if_neg (by omega)]

/-- The length of an oversized text turns negative, and nothing is sent. -/
theorem writeBuffer_oversize {buf : Str} (long : 2 ^ 31 ≤ buf.length) (short : buf.length < 2 ^ 32) :
    fullNet.writeBuffer [] buf buf.length = (.error (.int (-1)), []) := by
  have refused := fullNet_refuses (sizeToInt_large long short)
  unfold Net.writeBuffer
  simp only [List.length_nil, refused]
  simp

theorem writeRequest_refused {net : Net} {client : CClient} {host path body tx : Str} {exn : Exn}
    (refused : net.writeBuffer [] (client.requestHead host path body)
      (client.requestHead host path body).length = (.error exn, tx)) :
    client.writeRequest net host path body = (.error exn, tx) := by
  unfold CClient.writeRequest
  simp only [refused]

theorem oversize_breaks {v : Str} (long : 2 ^ 31 ≤ v.length) (short : v.length + 32 < 2 ^ 32) :
    ¬ Delivered (getRequest v) "x".toList "/".toList [] := by
  intro delivered
  obtain ⟨node, rest, read, _⟩ := delivered fullNet fullNet fullNet_full
  have size := getRequest_length v "x".toList
  have one : "x".toList.length = 1 := rfl
  rw [one] at size
  rw [writeRequest_refused (writeBuffer_oversize (by omega) (by omega)), receive_nothing] at read
  exact absurd read (by simp)

/-- Neither condition can be left out: a host with a line feed takes a header away, and a head
of 2^31 bytes is not sent. -/
theorem request_lost :
    (¬ ∀ (client : CClient) (host path body : Str), Request client host path body →
      (client.requestHead host path body).length < 2 ^ 31 → Delivered client host path body) ∧
    ¬ ∀ (client : CClient) (host path body : Str), Request client host path body →
      '\n' ∉ host → Delivered client host path body := by
  constructor
  · intro claim
    have host : "x\n\nx".toList ≠ [] ∧ Trimmed "x\n\nx".toList := by
      refine ⟨by decide, fun c first => ?_, fun c last => ?_⟩
      · obtain rfl : 'x' = c := by simpa using first
        rfl
      · obtain rfl : 'x' = c := by simpa using last
        rfl
    exact host_breaks (claim _ _ _ _ (getRequest_request (@letter_value 1) host)
      (by rw [getRequest_length]; simp))
  · intro claim
    have long : (List.replicate (2 ^ 31) 'x').length = 2 ^ 31 := List.length_replicate
    exact @oversize_breaks (List.replicate (2 ^ 31) 'x') (by omega) (by omega) (claim _ _ _ _
      (getRequest_request letter_value ⟨by decide, (@letter_value 1).1⟩) (by decide))

end Solusek.RoundTrip
