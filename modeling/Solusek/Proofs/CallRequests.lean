import Solusek.Proofs.Connections
import Solusek.Proofs.CookieSegments
import Solusek.Proofs.ErrorResponses
import Solusek.Proofs.ResponseRoundTrip

/-!
# Calls of the client

What a call of the client asks for, and that the node which reads it hands the endpoint that
request.
-/

namespace Solusek.Serve

open Socket Node Static Transition RoundTrip SessionCookies

variable {σ : Type*}

/-! ### Calls -/

/-- The value that a client gives a header, by the header's name in lower case. -/
def headerOf (client : Client.CClient) (key : Str) : Option Str :=
  (client.AdditionalHeaders.entries.find? fun it => lower it.1 == key).map Prod.snd

/-- The segments of the client's cookies. -/
def segmentsOf (client : Client.CClient) : List Str :=
  match headerOf client "cookie".toList with
  | some text => text.splitOn ';'
  | none => []

/-- A call of a client, and the connection that it makes. -/
structure Call where
  client : Client.CClient
  host : Str
  path : Str
  body : Str
  net : Net
  connection : Connection

namespace Call

def target (call : Call) : Str := call.path.takeWhile (· ≠ '?')

/-- The request that an endpoint is to be handed. -/
def request (call : Call) : MRequest where
  Cookies := cookiesOf (segmentsOf call.client)
  Body := call.body
  Host := call.host
  SID := sidAfter [] (cookiesOf (segmentsOf call.client))
  QueryString := (call.path.dropWhile (· ≠ '?')).drop 1
  SSLClientCN := (headerOf call.client "x-ssl-client-cn".toList).getD []

/-- The lookup of a static file for the call. -/
def file (call : Call) (srv : CServer σ) (fs : FileSystem) : Answer (Option Static.MEndpoint) :=
  srv.getStaticEndpoint fs 2 call.target call.client.Method (some call.host)

/-- The service behind the server: an endpoint, or else a page. -/
def answer (call : Call) (srv : CServer σ) (fs : FileSystem) (s : σ) : Except Fault MResponse × σ :=
  match srv.getEndpoint call.target call.client.Method with
  | some ep => (.ok (ep.Callback s call.request).1, (ep.Callback s call.request).2)
  | none =>
    ((call.file srv fs).1.bind pageOf, s)

/-- The request is one that the server can read. -/
structure WellFormed (call : Call) : Prop where
  request : Request call.client call.host call.path call.body
  host : '\r' ∉ call.host ∧ '\n' ∉ call.host ∧ '\x00' ∉ call.host
  short : (call.client.requestHead call.host call.path call.body).length < 2 ^ 31
  cookies : Filled (segmentsOf call.client) ∧ ShortSegments (segmentsOf call.client)

/-- Both networks send in full, and what the client has written arrives. -/
structure Carried (call : Call) : Prop where
  full : SendsInFull call.net ∧ SendsInFull call.connection.net
  arrives : call.connection.rx =
    (call.client.writeRequest call.net call.host call.path call.body).2

structure Sound (call : Call) : Prop extends WellFormed call, Carried call

end Call

/-- The calls one after another. -/
def callAll (srv : CServer σ) (fs : FileSystem) : List Call → σ →
    List (Except Fault MResponse) × σ
  | [], s => ([], s)
  | call :: rest, s =>
    ((call.answer srv fs s).1 :: (callAll srv fs rest (call.answer srv fs s).2).1,
      (callAll srv fs rest (call.answer srv fs s).2).2)

structure Sendable (response : MResponse) : Prop where
  reply : RoundTrip.Reply response
  short : ∀ text ∈ headerTexts response, text.length < 2 ^ 31

/-- The client reads these bytes as the response. -/
def Delivers (response : MResponse) (tx : Str) : Prop :=
  ∀ (peer : Net) (garbage : Nat), ∃ got, Client.readResponse peer garbage tx = .ok got ∧
    got.Code = response.Code ∧ got.Body = response.Body ∧ got.ContentType = response.ContentType

/-- Whatever the state, the service gives the call a response that can be sent. -/
def Answers (srv : CServer σ) (fs : FileSystem) (call : Call) : Prop :=
  ∀ s, ∃ response, (call.answer srv fs s).1 = .ok response ∧ Sendable response

/-! ### The request -/

namespace Call

variable {call : Call}

/-- The node that the server has once the request is read. -/
abbrev node (call : Call) : Node.CNode :=
  RoundTrip.received call.client call.host call.path call.body

theorem received_of_receive {c : Connection} {node : Node.CNode} {rest : Str}
    (read : receive c.net c.rx = .ok (node, rest)) : Serve.received c = node := by
  unfold receive at read
  unfold Serve.received
  cases header : readHeader c.net c.rx with
  | error e =>
    rw [header] at read
    cases read
  | ok r =>
    rw [header] at read
    dsimp only at read ⊢
    rw [read]

theorem Sound.received (sound : call.Sound) : Serve.received call.connection = call.node := by
  refine @received_of_receive _ _ [] ?_
  rw [sound.arrives, writeRequest_full sound.full.1 sound.short]
  unfold receive
  rw [sound.request.readHeader_eq sound.host.2.1 call.connection.net]
  exact sound.request.readBody_eq call.connection.net rfl

theorem Sound.getHost (sound : call.Sound) :
    (call.node.getHeader "Host".toList).map CVarVal.Val = some call.host :=
  sound.request.received_host sound.host.1 sound.host.2.2 lower_host

theorem Sound.hostOf (sound : call.Sound) : hostOf call.node = call.host := by
  obtain ⟨vv, found, same⟩ := Option.map_eq_some_iff.mp sound.getHost
  rw [Serve.hostOf, found]
  exact same

/-- A header is found as the client has given it. -/
theorem Sound.getHeader (sound : call.Sound) {name key : Str} (low : lower name = key)
    (terminated : '\x00' ∉ name) (solid : ' ' ∉ key) (nonempty : key ≠ [])
    (apart : key ≠ "host".toList ∧ key ≠ "content-length".toList) :
    (call.node.getHeader name).map CVarVal.Val = headerOf call.client key := by
  rw [getHeader_eq _ terminated]
  show ((headersOf call.client call.host call.path call.body).find? (named (lower name))).map
    CVarVal.Val = _
  rw [low, find_headersOf _ _ _ _ solid apart.1]
  have last : (lastHeaders call.body).find? (named key) = none := by
    have length : ¬ named key
        { Var := "content-length".toList, Val := printNat call.body.length } := by
      rw [← lower_contentLength, named_lower, lower_contentLength]
      exact apart.2.symm
    unfold lastHeaders
    split
    · rw [List.cons_append, List.find?_cons_of_neg length, List.nil_append,
        List.find?_cons_of_neg (blank_skipped nonempty)]
      rfl
    · rw [List.nil_append, List.find?_cons_of_neg (blank_skipped nonempty)]
      rfl
  unfold headerOf
  cases found : call.client.AdditionalHeaders.entries.find? fun it => lower it.1 == key with
  | none =>
    have missed := @find_entries_none _ key fun it member same =>
      List.find?_eq_none.mp found it member (beq_iff_eq.mpr same)
    rw [missed, last]
    rfl
  | some it =>
    have member := List.mem_of_find?_eq_some found
    have own := List.find?_some found
    obtain rfl : lower it.1 = key := beq_iff_eq.mp own
    rw [find_entries sound.request.distinct member]
    rfl

theorem cookieLoop_filled {text : Str} (filled : Filled (text.splitOn ';'))
    (short : ShortSegments (text.splitOn ';')) (request : MRequest) :
    cookieLoop request text = .ok { request with
      Cookies := request.Cookies ++ cookiesOf (text.splitOn ';')
      SID := sidAfter request.SID (cookiesOf (text.splitOn ';')) } := by
  have all : ∀ s ∈ looked (text.splitOn ';'), '=' ∈ trim s := fun s member =>
    mem_trim.mpr ((filled_iff _).mp filled s member)
  have same : (looked (text.splitOn ';')).map taken = cookiesOf (text.splitOn ';') := by
    rw [cookiesOf_looked, cookiesOf,
      List.filter_eq_self.mpr fun s member => decide_eq_true (all s member)]
    exact List.map_congr_left fun s member => if_pos (all s member)
  have loop := cookieLoop_segments (fun s => Texts.not_mem_of_mem_splitOn) short request
  rw [List.intercalate_splitOn, same] at loop
  exact loop

/-- What the cookie loop does, if anything, is all that can go wrong. -/
theorem buildRequest_loop {node : Node.CNode} {host : Str}
    (found : (node.getHeader "Host".toList).map CVarVal.Val = some host)
    {filled : MRequest → MRequest}
    (loop : ∀ vv, node.getHeader "Cookie".toList = some vv →
      ∀ request, cookieLoop request vv.Val = .ok (filled request))
    (cookieless : node.getHeader "Cookie".toList = none → ∀ request, filled request = request) :
    buildRequest node = .ok { filled
      { Body := node.Body
        QueryString := node.QueryString
        SSLClientCN := ((node.getHeader "X-SSL-Client-CN".toList).map CVarVal.Val).getD [] } with
      Host := host } := by
  obtain ⟨vv, here, rfl⟩ := Option.map_eq_some_iff.mp found
  unfold Node.buildRequest
  rw [here]
  cases cookie : node.getHeader "Cookie".toList with
  | none =>
    have same := cookieless cookie
    cases node.getHeader "X-SSL-Client-CN".toList <;> simp only [same] <;> rfl
  | some text =>
    have read := loop text cookie
    cases node.getHeader "X-SSL-Client-CN".toList <;> simp only [read] <;> rfl

theorem segmentsOf_none {client : Client.CClient} (absent : headerOf client "cookie".toList = none) :
    segmentsOf client = [] := by
  rw [segmentsOf, absent]

theorem segmentsOf_some {client : Client.CClient} {text : Str}
    (given : headerOf client "cookie".toList = some text) :
    segmentsOf client = text.splitOn ';' := by
  rw [segmentsOf, given]

theorem Sound.buildRequest (sound : call.Sound) : buildRequest call.node = .ok call.request := by
  have cn := @Sound.getHeader call sound "X-SSL-Client-CN".toList "x-ssl-client-cn".toList
    (by simp [lower]) (by decide) (by decide) (by decide) (by decide)
  have cookie := @Sound.getHeader call sound "Cookie".toList "cookie".toList
    (by simp [lower]) (by decide) (by decide) (by decide) (by decide)
  have built := @buildRequest_loop call.node call.host sound.getHost
    (fun request => { request with
      Cookies := request.Cookies ++ cookiesOf (segmentsOf call.client)
      SID := sidAfter request.SID (cookiesOf (segmentsOf call.client)) })
    (fun vv here request => ?_) (fun absent request => ?_)
  · rw [built, cn]
    rfl
  · rw [here] at cookie
    have split := segmentsOf_some cookie.symm
    have segments := sound.cookies
    rw [split] at segments ⊢
    exact cookieLoop_filled segments.1 segments.2 request
  · rw [absent] at cookie
    rw [segmentsOf_none cookie.symm]
    simp only [cookiesOf, List.filter_nil, List.map_nil, List.append_nil, sidAfter, List.foldl_nil]

theorem Sound.target_some (sound : call.Sound) : call.target ≠ [] := by
  intro empty
  obtain ⟨c, rest, path⟩ : ∃ c rest, call.path = c :: rest := by
    cases h : call.path with
    | nil =>
      have first := sound.request.path.1
      rw [h] at first
      cases first
    | cons c rest => exact ⟨c, rest, rfl⟩
  have first := sound.request.path.1
  rw [path] at first
  obtain rfl : c = '/' := by simpa using first
  unfold target at empty
  rw [path, List.takeWhile_cons_of_pos (by decide)] at empty
  cases empty

theorem Sound.reply_endpoint (sound : call.Sound) {srv : CServer σ} (fs : FileSystem) (s : σ)
    {ep : MEndpoint σ} (registered : srv.getEndpoint call.target call.client.Method = some ep) :
    reply srv fs (Serve.received call.connection) s =
      ((.ok (some (ep.Callback s call.request).1), []), (ep.Callback s call.request).2) := by
  have path : call.node.Path.length > 0 := List.length_pos_of_ne_nil sound.target_some
  have found : srv.getEndpoint call.node.Path call.node.Method =
      srv.getEndpoint call.target call.client.Method := rfl
  rw [sound.received]
  unfold Serve.reply
  rw [if_pos path, found, registered, sound.buildRequest]

theorem Sound.reply_page (sound : call.Sound) {srv : CServer σ} (fs : FileSystem) (s : σ)
    (unrouted : srv.getEndpoint call.target call.client.Method = none) :
    reply srv fs (Serve.received call.connection) s =
      ((((call.file srv fs).1.bind pageOf).map some, (call.file srv fs).2), s) := by
  have path : call.node.Path.length > 0 := List.length_pos_of_ne_nil sound.target_some
  have found : srv.getEndpoint call.node.Path call.node.Method =
      srv.getEndpoint call.target call.client.Method := rfl
  have lookup : staticAnswer srv fs call.node = call.file srv fs := by
    rw [staticAnswer, sound.hostOf]
    rfl
  rw [sound.received]
  unfold Serve.reply
  rw [if_pos path, found, unrouted]
  dsimp only
  rw [lookup]
  rcases call.file srv fs with ⟨e | ep, events⟩ <;> rfl

/-- The node finds the response that the service gives. -/
theorem Sound.reply (sound : call.Sound) (srv : CServer σ) (fs : FileSystem) {s s' : σ}
    {response : MResponse} (answered : call.answer srv fs s = (.ok response, s')) :
    ∃ events, reply srv fs (Serve.received call.connection) s =
      ((.ok (some response), events), s') := by
  unfold answer at answered
  cases registered : srv.getEndpoint call.target call.client.Method with
  | some ep =>
    rw [registered] at answered
    obtain ⟨given, rfl⟩ := Prod.mk.inj answered
    obtain rfl := Except.ok.inj given
    exact ⟨[], sound.reply_endpoint fs s registered⟩
  | none =>
    rw [registered] at answered
    obtain ⟨given, rfl⟩ := Prod.mk.inj answered
    refine ⟨(call.file srv fs).2, ?_⟩
    rw [sound.reply_page fs s registered, given]
    rfl

end Call

end Solusek.Serve
