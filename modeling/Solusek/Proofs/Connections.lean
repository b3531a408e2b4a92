import Solusek.Model.Serve
import Solusek.Proofs.HeaderFraming
import Solusek.Proofs.RequestRoundTrip
import Solusek.Proofs.StaticIndexes
import Solusek.Proofs.WholeMessages

/-!
# Connections

A node does nothing for a request that is not complete, however its bytes arrive. Threads that run
side by side answer as if they had run one after the other, in the order of their callbacks.
-/

namespace Solusek.Serve

open Socket Node Static Transition

variable {σ : Type*}

/-! ### Complete requests -/

/-- What `readHeader` makes of a header. -/
def headNode (p : Str) : Except Exn Node.CNode :=
  match (headerLines p).map entry with
  | [] => .ok {}
  | first :: rest => (requestLine first.Var).map fun node => { node with Headers := first :: rest }

/-- The `unsigned int` that `readBody` counts up to. -/
def announced (node : Node.CNode) : Nat :=
  match node.getHeader "content-length".toList with
  | none => 0
  | some vv => (atoi (cstr vv.Val) % 2 ^ 32).toNat

/-- A header with a path in its first line. -/
structure Head (p : Str) (node : Node.CNode) : Prop where
  header : Header p
  parsed : headNode p = .ok node
  path : node.Path ≠ []

def Finished (rx : Str) : Prop :=
  ∃ p rest node, rx = p ++ rest ∧ Head p node ∧ announced node ≤ rest.length

theorem readHeader_header (net : Net) {p : Str} (header : Header p) (rest : Str) :
    readHeader net (p ++ rest) = (headNode p).map fun node => (node, rest) := by
  unfold readHeader headNode
  rw [headerLoop_header net.eof header rest]
  cases (headerLines p).map entry with
  | nil => rfl
  | cons first more =>
    cases line : requestLine first.Var with
    | error e => simp [line, Except.map]
    | ok node => simp [line, Except.map]

theorem readHeader_endless (net : Net) {rx : Str} (none : ∀ p, p <+: rx → ¬ Header p) :
    readHeader net rx = .error (.int net.eof) := by
  unfold readHeader
  rcases headerLoop_framed net.eof rx with ⟨p, rest, rfl, header, _⟩ | ⟨read, _⟩
  · exact absurd header (none p (List.prefix_append p rest))
  · rw [read]

theorem bodyLoop_short (net : Net) {len n : Nat} (bound : len < 2 ^ 32) (Body : Str) {rx : Str}
    (missing : n + rx.length < len) : bodyLoop net len n Body rx = .error (.int net.eof) := by
  induction h : rx.length using Nat.strong_induction_on generalizing n Body rx with
  | _ size ih =>
    have more : n < len := by omega
    by_cases none : rx = []
    · have ended : net.readBuffer rx 1024 = .error (.int net.eof) := by
        unfold Net.readBuffer
        simp [none, net.eof_lt]
      exact bodyLoop_failed more ended Body
    · obtain ⟨r, positive, _, fits, read⟩ := readBuffer_some net none (show 0 < 1024 by decide)
      have taken : (rx.take r).length = r := List.length_take_of_le fits
      have left : (rx.drop r).length = rx.length - r := List.length_drop
      have count : (n + (rx.take r).length) % 2 ^ 32 = n + r := by
        rw [taken]
        omega
      rw [bodyLoop_chunk more read, count]
      exact ih (rx.drop r).length (by omega) _ (by omega) rfl

theorem bodyLoop_enough (net : Net) {len n : Nat} (small : len ≤ 2 ^ 32 - 1024) (Body : Str)
    {rx : Str} (enough : len ≤ n + rx.length) :
    ∃ Body' rest, bodyLoop net len n Body rx = .ok (Body', rest) := by
  induction h : rx.length using Nat.strong_induction_on generalizing n Body rx with
  | _ size ih =>
    by_cases more : n < len
    · have nonempty : rx ≠ [] := by
        rintro rfl
        simp only [List.length_nil] at enough
        omega
      obtain ⟨r, positive, limit, fits, read⟩ := readBuffer_some net nonempty (show 0 < 1024 by decide)
      have taken : (rx.take r).length = r := List.length_take_of_le fits
      have left : (rx.drop r).length = rx.length - r := List.length_drop
      have count : (n + (rx.take r).length) % 2 ^ 32 = n + r := by
        rw [taken]
        omega
      rw [bodyLoop_chunk more read, count]
      exact ih (rx.drop r).length (by omega) _ (by omega) rfl
    · exact ⟨Body, rx, bodyLoop_done (Nat.le_of_not_lt more) Body rx⟩

theorem announced_lt (node : Node.CNode) : announced node < 2 ^ 32 := by
  unfold announced
  split <;> omega

theorem readBody_short (net : Net) (node : Node.CNode) {rx : Str}
    (missing : rx.length < announced node) : readBody net node rx = .error (.int net.eof) := by
  have bound := announced_lt node
  unfold announced at missing bound
  unfold readBody
  cases header : node.getHeader "content-length".toList with
  | none =>
    rw [header] at missing
    exact absurd missing (Nat.not_lt_zero _)
  | some vv =>
    rw [header] at missing bound
    dsimp only at missing bound ⊢
    rw [bodyLoop_short net bound [] (by omega)]

theorem readBody_enough (net : Net) {node : Node.CNode} (small : announced node ≤ 2 ^ 32 - 1024)
    {rx : Str} (enough : announced node ≤ rx.length) :
    ∃ Body rest, readBody net node rx = .ok ({ node with Body := Body }, rest) := by
  unfold announced at small enough
  unfold readBody
  cases header : node.getHeader "content-length".toList with
  | none => exact ⟨[], rx, rfl⟩
  | some vv =>
    rw [header] at small enough
    dsimp only at small enough ⊢
    obtain ⟨Body, rest, loop⟩ := bodyLoop_enough net small [] (by omega : _ ≤ 0 + rx.length)
    rw [loop]
    exact ⟨Body, rest, rfl⟩

theorem readBody_path {net : Net} {node node' : Node.CNode} {rx rest : Str}
    (read : readBody net node rx = .ok (node', rest)) : node'.Path = node.Path := by
  unfold readBody at read
  split at read
  · obtain ⟨rfl, _⟩ := Prod.mk.inj (Except.ok.inj read)
    rfl
  · dsimp only at read
    split at read
    · cases read
    · obtain ⟨rfl, _⟩ := Prod.mk.inj (Except.ok.inj read)
      rfl

/-- Nothing but a complete request leaves a path behind. -/
theorem received_unfinished (c : Connection) (unfinished : ¬ Finished c.rx) :
    (received c).Path = [] := by
  unfold received
  by_cases none : ∀ p, p <+: c.rx → ¬ Header p
  · rw [readHeader_endless c.net none]
  · push Not at none
    obtain ⟨p, ⟨rest, whole⟩, header⟩ := none
    rw [← whole, readHeader_header c.net header rest]
    cases parsed : headNode p with
    | error e => rfl
    | ok node =>
      by_cases path : node.Path = []
      · simp only [Except.map]
        cases read : readBody c.net node rest with
        | error e => rfl
        | ok r =>
          obtain ⟨node', rest'⟩ := r
          exact (readBody_path read).trans path
      · have missing : rest.length < announced node := by
          by_contra enough
          exact unfinished ⟨p, rest, node, whole.symm, ⟨header, parsed, path⟩, by omega⟩
        simp only [Except.map, readBody_short c.net node missing]

/-- What is received of a complete request is its header's, but for the body. -/
theorem received_finished (c : Connection) {p rest : Str} {node : Node.CNode}
    (whole : c.rx = p ++ rest) (head : Head p node) (small : announced node ≤ 2 ^ 32 - 1024)
    (enough : announced node ≤ rest.length) :
    ∃ Body, received c = { node with Body := Body } := by
  obtain ⟨Body, rest', read⟩ := readBody_enough c.net small enough
  refine ⟨Body, ?_⟩
  unfold received
  rw [whole, readHeader_header c.net head.header rest, head.parsed]
  simp only [Except.map, read]

/-! ### Nested lookups -/

theorem getStaticIndex_congr {endpoint endpoint' : Str → Answer (Option Static.MEndpoint)}
    {path : Str} {names : List Str}
    (same : ∀ it ∈ names, it ≠ [] → it.getLast? ≠ some '/' →
      endpoint (path ++ it) = endpoint' (path ++ it)) :
    StaticServer.getStaticIndex endpoint path names =
      StaticServer.getStaticIndex endpoint' path names := by
  induction names with
  | nil => rfl
  | cons it rest ih =>
    obtain ⟨here, later⟩ := List.forall_mem_cons.mp same
    have tail := ih later
    rw [StaticServer.getStaticIndex, StaticServer.getStaticIndex]
    split <;> rename_i last
    · rfl
    · exact tail
    · have nonempty : it ≠ [] := by
        rintro rfl
        cases last
      have kept : it.getLast? ≠ some '/' := by
        rw [last]
        simp_all
      rw [here nonempty kept, tail]

/-- The two levels of a static lookup are all there are. -/
theorem staticAnswer_depth (srv : CServer σ) (fs : FileSystem)
    (terminated : ∀ it ∈ srv.StaticIndexes, '\x00' ∉ it) (node : Node.CNode) (fuel : Nat) :
    srv.getStaticEndpoint fs (fuel + 2) node.Path node.Method (some (hostOf node)) =
      staticAnswer srv fs node := by
  unfold staticAnswer
  by_cases dots : find "..".toList (cstr node.Path) = none
  · by_cases slash : (cstr node.Path).getLast? = some '/'
    · rw [StaticServer.getStaticEndpoint_slash dots slash (fuel + 1),
        StaticServer.getStaticEndpoint_slash dots slash 1]
      refine getStaticIndex_congr fun it member nonempty kept => ?_
      have plain : StaticServer.Plain (cstr node.Path ++ it) :=
        plain_behind (terminated it member) nonempty kept
      rw [StaticServer.getStaticEndpoint_plain plain fuel,
        StaticServer.getStaticEndpoint_plain plain 0]
    · cases last : (cstr node.Path).getLast? with
      | none => simp only [StaticServer.getStaticEndpoint, dots, last, ne_eq, not_true, if_false]
      | some c =>
        have plain : StaticServer.Plain node.Path := ⟨c, last, fun same => slash (same ▸ last)⟩
        rw [StaticServer.getStaticEndpoint_plain plain (fuel + 1),
          StaticServer.getStaticEndpoint_plain plain 1]
  · rw [StaticServer.getStaticEndpoint_dots dots (fuel + 1),
      StaticServer.getStaticEndpoint_dots dots 1]

/-! ### Threads side by side -/

/-- Some order of the threads that have their response explains all there is to see: the state,
and what each finished thread has done. -/
structure Serial (srv : CServer σ) (fs : FileSystem) (initial : σ) (connections : List Connection)
    (order : List (Nat × Connection)) (t : State σ) : Prop where
  once : (order.map Prod.fst).Nodup
  known : ∀ p ∈ order, connections[p.1]? = some p.2
  replied : ∀ n c, connections[n]? = some c → (n ∈ order.map Prod.fst ↔
    t.threads[n]? ≠ some (.fresh c) ∧ t.threads[n]? ≠ some (.ready (c, received c)))
  state : t.shared = (serveAll srv fs (order.map Prod.snd) initial).2
  outcomes : ∀ (k : Nat) p o, order[k]? = some p → t.threads[p.1]? = some (.finished o) →
    (serveAll srv fs (order.map Prod.snd) initial).1[k]? = some o

theorem serveAll_eq (srv : CServer σ) (fs : FileSystem) (connections : List Connection) (s : σ) :
    serveAll srv fs connections s =
      (((task srv fs).serial connections s).1.map (task srv fs).after,
        ((task srv fs).serial connections s).2) := by
  induction connections generalizing s with
  | nil => rfl
  | cons c rest ih =>
    have one : ((task srv fs).after ((task srv fs).alone c s).1, ((task srv fs).alone c s).2) =
        CNode.run srv fs c s := rfl
    rw [serveAll, Interleaving.Task.serial, ← one, ih]
    rfl

theorem serial_of_serialized {srv : CServer σ} {fs : FileSystem} {initial : σ}
    {connections : List Connection} {order : List (Nat × Connection)} {t : State σ}
    (serialized : (task srv fs).Serialized initial connections order t) :
    Serial srv fs initial connections order t where
  once := serialized.once
  known := serialized.known
  replied n c listed := serialized.ordered_iff listed
  state := by rw [serveAll_eq, serialized.shared]
  outcomes := by
    intro k p o listed last
    rw [serveAll_eq, List.getElem?_map]
    obtain ⟨b, read, ends⟩ := serialized.answered k p listed
    rw [read]
    rcases ends with other | same
    · rw [last] at other
      cases other
    · rw [last] at same
      obtain rfl : o = (task srv fs).after b := by simpa using same
      rfl

/-! ### What callbacks keep -/

section

variable {srv : CServer σ} {fs : FileSystem} {before : List Thread}

/-- Behind threads that are done, the last one makes its next step. -/
theorem last_steps (done : ∀ thread ∈ before, ∀ e, ¬ Stopped thread e) {s s' : σ} {a b : Thread}
    (moves : ∀ e, ¬ Stopped a e)
    (next : (task srv fs).next { shared := s, threads := [a] } (.advance 0) =
      some { shared := s', threads := [b] }) :
    Step srv fs { shared := s, threads := before ++ [a] } (.advance before.length)
      { shared := s', threads := before ++ [b] } := by
  have last : (before ++ [a])[before.length]? = some a := by
    rw [List.getElem?_append_right le_rfl, Nat.sub_self]
    rfl
  have moved (b : Thread) : (before ++ [a]).set before.length b = before ++ [b] := by
    rw [List.set_append_right _ _ le_rfl, Nat.sub_self, List.set_cons_zero]
  refine ⟨fun thread member e stopped => ?_, fun n turn thread e here stopped => ?_, ?_⟩
  · rcases List.mem_append.mp member with old | new
    · exact absurd stopped (done thread old e)
    · rw [List.mem_singleton.mp new] at stopped
      exact absurd stopped (moves e)
  · obtain rfl := Interleaving.Action.advance.inj turn
    rw [last] at here
    obtain rfl := Option.some.inj here
    exact moves e stopped
  · unfold Interleaving.Task.Step Interleaving.Task.next
    unfold Interleaving.Task.next at next
    cases a with
    | finished o => cases next
    | fresh c | ready r | stepped r =>
      simp only [List.getElem?_cons_zero, List.set_cons_zero, Option.some.injEq,
        Interleaving.State.mk.injEq, List.cons.injEq, and_true] at next
      obtain ⟨rfl, rfl⟩ := next
      simp only [last, moved]

/-- The thread of a new connection comes to its reply. -/
theorem connection_replies (done : ∀ thread ∈ before, ∀ e, ¬ Stopped thread e) {c : Connection}
    {s s' : σ} {r : Reply} (replied : reply srv fs (received c) s = (r, s')) :
    Runs (Step srv fs) { shared := s, threads := before }
      [.spawn c, .advance before.length, .advance before.length]
      { shared := s', threads := before ++ [.stepped (c, r)] } := by
  refine Runs.cons ⟨fun thread member e stopped => absurd stopped (done thread member e), nofun,
    rfl⟩ ?_
  refine Runs.cons (last_steps done (fun e => ?_) (b := .ready (c, received c)) rfl) (Runs.single
    (last_steps done (fun e => ?_) ?_))
  · rintro ⟨b, same, _⟩
    cases same
  · rintro ⟨b, same, _⟩
    cases same
  · show some (_ : State σ) = some _
    simp only [List.set_cons_zero, task, replied]

/-- The thread of a new connection comes to its end. -/
theorem connection_runs (done : ∀ thread ∈ before, ∀ e, ¬ Stopped thread e) {c : Connection}
    {s s' : σ} {response : Option MResponse} {events : List FileEvent}
    (replied : reply srv fs (received c) s = ((.ok response, events), s')) :
    Runs (Step srv fs) { shared := s, threads := before }
      [.spawn c, .advance before.length, .advance before.length, .advance before.length]
      { shared := s', threads := before ++ [.finished (.ok (sent c response), events)] } := by
  refine .snoc (connection_replies done replied) (last_steps done (fun e => ?_) rfl)
  rintro ⟨b, same, failed⟩
  obtain rfl := Interleaving.Phase.stepped.inj same
  cases failed

end

end Solusek.Serve
