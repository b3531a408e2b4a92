import Solusek.Proofs.CallRequests

/-!
# Exchanges

A call of the client is a call of the service behind the server: the endpoint is handed the
request that the client means, and the client gets the response of the endpoint, of the static
file, or of the missing page. Calls that run side by side are calls one after another.
-/

namespace Solusek.Serve

open Socket Node Static Transition RoundTrip SessionCookies

variable {σ : Type*}

/-! ### The response -/

theorem delivers_sent {c : Connection} (full : SendsInFull c.net) {response : MResponse}
    (sendable : Sendable response) : Delivers response (sent c (some response)) := by
  intro peer garbage
  have written := writeAll_last full (headParts_sendable sendable.reply.code
    sendable.reply.contentType.1 sendable.reply.cookies sendable.short c.tm) sendable.reply.body
  have bytes : sent c (some response) = (headParts response c.tm).flatten ++ response.Body := by
    rw [← written, ← responseParts_eq]
    rfl
  rw [bytes]
  exact readResponse_eq sendable.reply c.tm peer garbage

theorem Call.Sound.run {call : Call} (sound : call.Sound) (srv : CServer σ) (fs : FileSystem)
    {s s' : σ} {response : MResponse} (answered : call.answer srv fs s = (.ok response, s'))
    (sendable : Sendable response) : ∃ tx events,
      CNode.run srv fs call.connection s = ((.ok tx, events), s') ∧ Delivers response tx := by
  obtain ⟨events, replied⟩ := sound.reply srv fs answered
  refine ⟨sent call.connection (some response), events, ?_, delivers_sent sound.full.2 sendable⟩
  unfold CNode.run
  simp only [replied]
  rfl

/-! ### Many calls -/

theorem serveAll_calls {srv : CServer σ} {fs : FileSystem} {calls : List Call}
    (sound : ∀ call ∈ calls, call.Sound) (answers : ∀ call ∈ calls, Answers srv fs call) (s : σ) :
    (serveAll srv fs (calls.map Call.connection) s).2 = (callAll srv fs calls s).2 ∧
    ∀ (k : Nat) (o : Outcome), (serveAll srv fs (calls.map Call.connection) s).1[k]? = some o →
      ∃ response tx events, (callAll srv fs calls s).1[k]? = some (.ok response) ∧
        o = (.ok tx, events) ∧ Delivers response tx := by
  induction calls generalizing s with
  | nil => exact ⟨rfl, fun k o given => by simp [serveAll] at given⟩
  | cons call calls ih =>
    obtain ⟨here, later⟩ := List.forall_mem_cons.mp sound
    obtain ⟨given, others⟩ := List.forall_mem_cons.mp answers
    obtain ⟨response, answered, sendable⟩ := given s
    obtain ⟨tx, events, ran, delivers⟩ := here.run srv fs
      (Prod.ext answered rfl : call.answer srv fs s = (.ok response, (call.answer srv fs s).2))
      sendable
    obtain ⟨state, outcomes⟩ := ih later others (call.answer srv fs s).2
    simp only [List.map_cons, serveAll, callAll, ran]
    refine ⟨state, fun k o listed => ?_⟩
    cases k with
    | zero =>
      obtain rfl : (Except.ok tx, events) = o := by simpa using listed
      exact ⟨response, tx, events, by simp [answered], rfl, delivers⟩
    | succ k =>
      rw [List.getElem?_cons_succ] at listed ⊢
      exact outcomes k o listed

/-- The calls behind the connections of an order. -/
theorem exists_calls {calls : List Call} {order : List (Nat × Connection)}
    (known : ∀ p ∈ order, (calls.map Call.connection)[p.1]? = some p.2) :
    ∃ made : List (Nat × Call), (∀ q ∈ made, calls[q.1]? = some q.2) ∧
      made.map (fun q => (q.1, q.2.connection)) = order := by
  induction order with
  | nil => exact ⟨[], fun q member => absurd member List.not_mem_nil, rfl⟩
  | cons p order ih =>
    obtain ⟨here, later⟩ := List.forall_mem_cons.mp known
    obtain ⟨made, listed, same⟩ := ih later
    rw [List.getElem?_map] at here
    obtain ⟨call, found, own⟩ := Option.map_eq_some_iff.mp here
    refine ⟨(p.1, call) :: made, List.forall_mem_cons.mpr ⟨found, listed⟩, ?_⟩
    rw [List.map_cons, same, own]

/-- Some order of the calls explains what every client gets and what becomes of the state. -/
structure Explained (srv : CServer σ) (fs : FileSystem) (initial : σ) (calls : List Call)
    (order : List (Nat × Call)) (t : State σ) : Prop where
  once : (order.map Prod.fst).Nodup
  known : ∀ q ∈ order, calls[q.1]? = some q.2
  all : ∀ n o, t.threads[n]? = some (.finished o) → n ∈ order.map Prod.fst
  state : t.shared = (callAll srv fs (order.map Prod.snd) initial).2
  delivered : ∀ (k : Nat) q o, order[k]? = some q → t.threads[q.1]? = some (.finished o) →
    ∃ response tx events, (callAll srv fs (order.map Prod.snd) initial).1[k]? = some (.ok response) ∧
      o = (.ok tx, events) ∧ Delivers response tx

theorem explained_of_serial {srv : CServer σ} {fs : FileSystem} {initial : σ} {calls : List Call}
    (sound : ∀ call ∈ calls, call.Sound) (answers : ∀ call ∈ calls, Answers srv fs call)
    {order : List (Nat × Connection)} {t : State σ} (length : t.threads.length = calls.length)
    (serial : Serial srv fs initial (calls.map Call.connection) order t) :
    ∃ made, Explained srv fs initial calls made t := by
  obtain ⟨made, listed, rfl⟩ := exists_calls serial.known
  have firsts : (made.map fun q => (q.1, q.2.connection)).map Prod.fst = made.map Prod.fst := by
    rw [List.map_map]
    rfl
  have connections : (made.map fun q => (q.1, q.2.connection)).map Prod.snd =
      (made.map Prod.snd).map Call.connection := by
    rw [List.map_map, List.map_map]
    rfl
  have member {q : Call} (inside : q ∈ made.map Prod.snd) : q ∈ calls := by
    obtain ⟨p, own, rfl⟩ := List.mem_map.mp inside
    exact List.mem_of_getElem? (listed p own)
  obtain ⟨state, outcomes⟩ := @serveAll_calls _ srv fs (made.map Prod.snd)
    (fun call inside => sound call (member inside))
    (fun call inside => answers call (member inside)) initial
  refine ⟨made, firsts ▸ serial.once, listed, fun n o last => ?_, ?_, fun k q o here last => ?_⟩
  · have bound := (List.getElem?_eq_some_iff.mp last).1
    have here : (calls.map Call.connection)[n]? =
        some (calls.get ⟨n, length ▸ bound⟩).connection := by
      rw [List.getElem?_map, List.getElem?_eq_getElem (length ▸ bound)]
      rfl
    rw [← firsts, serial.replied n _ here, last]
    exact ⟨nofun, nofun⟩
  · rw [serial.state, connections, state]
  · have placed : (made.map fun q => (q.1, q.2.connection))[k]? = some (q.1, q.2.connection) := by
      rw [List.getElem?_map, here]
      rfl
    have read := serial.outcomes k _ o placed last
    rw [connections] at read
    exact outcomes k o read

/-- However the threads of these calls take their turns, every client gets the response that the
service gives it in some order of the calls, and the state is the one the service is left in. -/
theorem exchanges_explained {srv : CServer σ} {fs : FileSystem} {initial : σ} {calls : List Call}
    (sound : ∀ call ∈ calls, call.Sound) (answers : ∀ call ∈ calls, Answers srv fs call)
    {acts : List (Interleaving.Action Connection)} {t : State σ}
    (made : Interleaving.inputs acts = calls.map Call.connection)
    (run : Runs (Step srv fs) { shared := initial, threads := [] } acts t) :
    ∃ order, Explained srv fs initial calls order t := by
  obtain ⟨order, _, serialized⟩ := (Interleaving.Task.serialized_start initial).runs
    (run.mono fun step => step.taken)
  rw [List.nil_append, made] at serialized
  refine explained_of_serial sound answers ?_ (serial_of_serialized serialized)
  rw [serialized.length, List.length_map]

/-! ### A missing page -/

theorem sendable_plain {code : Int} (int : -2 ^ 31 ≤ code ∧ code < 2 ^ 31) {body : Str}
    (small : body.length < 2 ^ 31) : Sendable { Code := code, Body := body } := by
  have texts : ∀ text ∈ headerTexts { Code := code, Body := body },
      text = "application/json".toList ∨ text = [] := fun text member => by
    simpa [headerTexts] using member
  have json : "application/json".toList ≠ [] ∧ Trimmed "application/json".toList := by
    refine ⟨by decide, fun c first => ?_, fun c last => ?_⟩
    · obtain rfl : 'a' = c := by simpa using first
      rfl
    · obtain rfl : 'n' = c := by simpa using last
      rfl
  refine ⟨⟨int, small, json,
    fun cookie member => absurd member List.not_mem_nil, fun text member => ?_⟩,
    fun text member => ?_⟩
  · rcases texts text member with rfl | rfl <;> exact headerText_of_stamp rfl
  · rcases texts text member with rfl | rfl <;> decide

theorem pageOf_none : pageOf none = .ok
    { Code := 404
      Body := errorBody "404".toList "Endpoint not found.".toList } := by
  have escaped : Utf8.marked '\\' '"' "Endpoint not found.".toList =
      "Endpoint not found.".toList := by decide
  have code : printInt 404 = "404".toList := by decide
  unfold pageOf
  rw [MErrorResponse_eq, escaped, code]

/-- A call to the host `x` over a network that loses nothing. -/
def callOf (client : Client.CClient) (path rx : Str) : Call where
  client := client
  host := "x".toList
  path := path
  body := []
  net := fullNet
  connection := { net := fullNet, rx := rx, tm := midnight }

theorem callOf_sound {client : Client.CClient} {path rx : Str}
    (request : Request client "x".toList path [])
    (short : (client.requestHead "x".toList path []).length < 2 ^ 31)
    (cookies : Filled (segmentsOf client) ∧ ShortSegments (segmentsOf client))
    (arrives : rx = (client.writeRequest fullNet "x".toList path []).2) :
    (callOf client path rx).Sound := by
  have host : '\r' ∉ "x".toList ∧ '\n' ∉ "x".toList ∧ '\x00' ∉ "x".toList := by decide
  have written : (callOf client path rx).client.writeRequest (callOf client path rx).net
      (callOf client path rx).host (callOf client path rx).path (callOf client path rx).body =
      client.writeRequest fullNet "x".toList path [] := rfl
  exact ⟨⟨request, host, short, cookies⟩, ⟨fullNet_full, fullNet_full⟩,
    arrives.trans (congrArg Prod.snd written).symm⟩

theorem getRequest_cookies : Filled (segmentsOf (getRequest "x".toList)) ∧
    ShortSegments (segmentsOf (getRequest "x".toList)) := by
  have absent : headerOf (getRequest "x".toList) "cookie".toList = none := by decide
  rw [Call.segmentsOf_none absent]
  exact ⟨⟨nofun, nofun⟩, nofun, nofun⟩

def missingCall : Call :=
  callOf (getRequest "x".toList) "/".toList
    ((getRequest "x".toList).writeRequest fullNet "x".toList "/".toList []).2

theorem missingCall_sound : missingCall.Sound := by
  refine callOf_sound (getRequest_request (@letter_value 1) ⟨by decide, (@letter_value 1).1⟩) ?_
    getRequest_cookies rfl
  rw [getRequest_length]
  decide

theorem missingCall_answer (s : Unit) : missingCall.answer {} ⟨fun _ => none, fun _ => []⟩ s =
    (.ok { Code := 404, Body := errorBody "404".toList "Endpoint not found.".toList }, s) := by
  have lookup : missingCall.file ({} : CServer Unit) ⟨fun _ => none, fun _ => []⟩ =
      (.ok none, []) := by
    decide
  have missing : ({} : CServer Unit).getEndpoint missingCall.target missingCall.client.Method =
      none := rfl
  unfold Call.answer
  rw [missing, lookup]
  exact Prod.ext pageOf_none rfl

theorem exchanges_explained_missing : ∃ events order,
    Explained ({} : CServer Unit) ⟨fun _ => none, fun _ => []⟩ () [missingCall] order
      { shared := ()
        threads := [.finished (.ok (sent missingCall.connection (some
          { Code := 404, Body := errorBody "404".toList "Endpoint not found.".toList })), events)] } := by
  obtain ⟨events, replied⟩ := missingCall_sound.reply _ _ (missingCall_answer ())
  have run := @connection_runs _ _ _ [] (fun _ member => absurd member List.not_mem_nil) _ _ _ _ _
    replied
  rw [List.nil_append, List.length_nil] at run
  have answers : Answers ({} : CServer Unit) ⟨fun _ => none, fun _ => []⟩ missingCall := by
    intro s
    exact ⟨_, congrArg Prod.fst (missingCall_answer s), sendable_plain (by decide) (by decide)⟩
  refine ⟨events, exchanges_explained ?_ ?_ rfl run⟩
  · exact List.forall_mem_singleton.mpr missingCall_sound
  · exact List.forall_mem_singleton.mpr answers

end Solusek.Serve
