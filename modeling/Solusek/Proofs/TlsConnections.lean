import Solusek.Proofs.TlsUses

/-!
# The connections of sockets

The connection a socket reads and writes is its own: it is with no other socket, and goes over the
socket's descriptor. When all sockets are gone every connection has been freed once, and of the
contexts those that the server name callback has made are left.
-/

namespace Solusek.Tls

open Lifetimes Transition
open Lifetimes.Event (made used released)

/-! ### Descriptors and names -/

def LibraryCall.isMark : LibraryCall → Bool
  | setFd _ _ | switchContext _ _ => true
  | _ => false

/-- Which connection has been given which descriptor, and which another context. -/
def Library.marks (lib : Library) : List LibraryCall := lib.calls.filter LibraryCall.isMark

@[simp] theorem marks_call (lib : Library) (call : LibraryCall) :
    (lib.call call).marks = lib.marks ++ if call.isMark then [call] else [] := by
  simp [Library.marks, Library.call, List.filter_singleton]

theorem marks_other {lib : Library} {call : LibraryCall} (other : call.isMark = false) :
    (lib.call call).marks = lib.marks := by
  simp [other]

@[simp] theorem marks_newContext (lib : Library) : lib.newContext.marks = lib.marks := by
  simp [Library.newContext, LibraryCall.isMark, Library.marks, Library.call]

@[simp] theorem marks_newSSL (lib : Library) (CTX : Option Nat) (sid : Int) :
    (lib.newSSL CTX sid).marks = lib.marks ++ [.setFd lib.connections sid] := by
  simp [Library.newSSL, LibraryCall.isMark, Library.marks, Library.call]

@[simp] theorem marks_serveName (lib : Library) (ssl : Nat) :
    (lib.serveName ssl).marks = lib.marks ++ [.switchContext ssl lib.contexts] := by
  simp [Library.serveName, LibraryCall.isMark]

@[simp] theorem marks_freeSSL (lib : Library) (ssl : Option Nat) :
    (lib.freeSSL ssl).marks = lib.marks := by
  cases ssl <;> simp [Library.freeSSL, LibraryCall.isMark]

@[simp] theorem marks_freeCTX (lib : Library) (root : Bool) (ctx : Option Nat) :
    (lib.freeCTX root ctx).marks = lib.marks := by
  cases ctx <;> cases root <;> simp [Library.freeCTX, LibraryCall.isMark]

@[simp] theorem connections_newSSL (lib : Library) (CTX : Option Nat) (sid : Int) :
    (lib.newSSL CTX sid).connections = lib.connections + 1 := rfl

@[simp] theorem contexts_newSSL (lib : Library) (CTX : Option Nat) (sid : Int) :
    (lib.newSSL CTX sid).contexts = lib.contexts := rfl

/-- The client asks for a name that has a certificate of its own. -/
def CNetHandlerSocket.Knows (s : CNetHandlerSocket) (hello : Option Str) : Prop :=
  s.SNIEnabled = true ∧ ∃ cname ∈ hello, ∃ it ∈ s.SNIList, cstr cname = it.Host

theorem marks_acceptSSL (s : CNetHandlerSocket) (sid : Int) (hello : Option Str) (lib : Library) :
    ∃ named, (s.acceptSSL sid hello lib).2.marks =
        lib.marks ++ .setFd lib.connections sid :: named ∧
      (∀ call ∈ named, ∃ ctx, call = .switchContext lib.connections ctx) ∧
      (named ≠ [] ↔ s.Knows hello) := by
  unfold CNetHandlerSocket.acceptSSL CNetHandlerSocket.sniCallback CNetHandlerSocket.Knows
  dsimp only
  split <;> rename_i on
  · cases hello with
    | none => exact ⟨[], by simp [LibraryCall.isMark], nofun, by simp⟩
    | some cname =>
      dsimp only
      split <;> rename_i found
      · refine ⟨[.switchContext lib.connections lib.contexts], ?_, ?_, ?_⟩
        · simp [LibraryCall.isMark]
        · exact List.forall_mem_singleton.mpr ⟨_, rfl⟩
        · have known := List.find?_some found
          have listed := List.mem_of_find?_eq_some found
          simp only [ne_eq, List.cons_ne_self, not_false_eq_true, true_iff]
          exact ⟨on, cname, rfl, _, listed, eq_of_beq known⟩
      · refine ⟨[], by simp [LibraryCall.isMark], nofun, ?_⟩
        have unknown := List.find?_eq_none.mp found
        simp only [ne_eq, not_true_eq_false, false_iff]
        rintro ⟨_, cname', asked, it, listed, same⟩
        obtain rfl := Option.mem_some_iff.mp asked
        exact unknown it listed (beq_iff_eq.mpr same)
  · exact ⟨[], by simp [LibraryCall.isMark], nofun, by simp [on]⟩

/-- A handshake in which the client asks for such a name. -/
def AsksName (p : Program) : Op → Prop
  | .call n (.accept false _ _ hello) =>
    ∃ s, p.sockets n = some s ∧ s.SSLEnabled = true ∧ s.Knows hello
  | _ => False

/-- At most one connection is made, and given its descriptor; `asks` says whether it goes over to
another context. -/
def Library.Adds (lib lib' : Library) (asks : Prop) : Prop :=
  ∃ new, lib'.marks = lib.marks ++ new ∧
    (new = [] ∧ lib'.connections = lib.connections ∨
      ∃ sid named, new = .setFd lib.connections sid :: named ∧
        (∀ call ∈ named, ∃ ctx, call = .switchContext lib.connections ctx) ∧
        lib'.connections = lib.connections + 1) ∧
    ((∃ ssl ctx, .switchContext ssl ctx ∈ new) ↔ asks)

theorem adds_nothing {lib lib' : Library} {asks : Prop} (same : lib'.marks = lib.marks)
    (same' : lib'.connections = lib.connections) (silent : ¬ asks) : lib.Adds lib' asks :=
  ⟨[], by rw [same, List.append_nil], Or.inl ⟨rfl, same'⟩, by simpa using silent⟩

theorem connections_acceptSSL (s : CNetHandlerSocket) (sid : Int) (hello : Option Str)
    (lib : Library) : (s.acceptSSL sid hello lib).2.connections = lib.connections + 1 := by
  unfold CNetHandlerSocket.acceptSSL CNetHandlerSocket.sniCallback
  dsimp only
  repeat' split
  all_goals rfl

@[simp] theorem connections_freeSSL (lib : Library) (ssl : Option Nat) :
    (lib.freeSSL ssl).connections = lib.connections := by
  cases ssl <;> rfl

@[simp] theorem connections_freeCTX (lib : Library) (root : Bool) (ctx : Option Nat) :
    (lib.freeCTX root ctx).connections = lib.connections := by
  cases ctx <;> cases root <;> rfl

theorem adds_next {p : Program} (op : Op) : p.lib.Adds (p.next op).lib (AsksName p op) := by
  have one (call : LibraryCall) (other : call.isMark = false) : p.lib.Adds (p.lib.call call) False :=
    adds_nothing (marks_other other) rfl id
  cases op with
  | parsePKCS12 there => exact one (.parsePKCS12 there) rfl
  | createSocket ssl sock =>
    cases ssl
    · exact adds_nothing rfl rfl id
    · exact adds_nothing (marks_newContext p.lib) rfl id
  | call n call =>
    cases here : p.sockets n with
    | none =>
      simp only [Program.next, here]
      refine adds_nothing rfl rfl ?_
      cases call with
      | accept refused => cases refused <;> simp [AsksName, here]
      | _ => exact id
    | some s =>
      rw [next_call here]
      cases call with
      | useCTX => exact one (.setContext s.CTX) rfl
      | useMem data => exact one (.useObject s.CTX data) rfl
      | setSSLMutual => exact one (.setContext s.CTX) rfl
      | setSNIEnabled => exact one (.setContext s.CTX) rfl
      | addSSLCertificateToSNI => exact adds_nothing rfl rfl id
      | setSNIClientHost => exact one (.setHostName s.SSL) rfl
      | openClientCertificateX509 => exact one (.getPeerCertificate s.SSL) rfl
      | getClientCertificate =>
        simp only [Program.call, Program.put, CNetHandlerSocket.getClientCertificate]
        split
        · exact one (.getPeerCertificate s.SSL) rfl
        · exact adds_nothing rfl rfl id
      | readBuffer =>
        simp only [Program.call, Program.put, CNetHandlerSocket.readBuffer]
        split
        · exact one (.read s.SSL) rfl
        · exact adds_nothing rfl rfl id
      | writeBuffer =>
        simp only [Program.call, Program.put, CNetHandlerSocket.writeBuffer]
        split
        · exact one (.write s.SSL) rfl
        · exact adds_nothing rfl rfl id
      | delete =>
        simp only [Program.call, CNetHandlerSocket.destroy]
        split
        · exact adds_nothing (by simp) (by simp) id
        · exact adds_nothing rfl rfl id
      | connect connected =>
        simp only [Program.call, Program.put, CNetHandlerSocket.connect]
        split
        · refine ⟨[.setFd p.lib.connections s.SID], ?_,
            Or.inr ⟨s.SID, [], rfl, List.forall_mem_nil _, rfl⟩, ?_⟩
          · simp [CNetHandlerSocket.connectSSL, CNetHandlerSocket.setSNIClientHost,
              LibraryCall.isMark]
          · simp [AsksName]
        · exact adds_nothing rfl rfl id
      | accept refused sid sock hello =>
        cases refused with
        | true => exact adds_nothing rfl rfl id
        | false =>
          have asks : AsksName p (.call n (.accept false sid sock hello)) ↔
              s.SSLEnabled = true ∧ s.Knows hello := by
            simp [AsksName, here]
          rw [asks]
          cases secure : s.SSLEnabled with
          | false =>
            have same : (p.call n s (.accept false sid sock hello)).lib = p.lib := by
              simp [Program.call, CNetHandlerSocket.accept, secure, Program.add, Program.put,
                CNetHandlerSocket.new]
            exact adds_nothing (same ▸ rfl) (same ▸ rfl) fun asks => Bool.false_ne_true asks.1
          | true =>
            obtain ⟨named, marks, only, knows⟩ := marks_acceptSSL s sid hello p.lib
            rw [call_accept secure, ← knows]
            refine ⟨.setFd p.lib.connections sid :: named, marks,
              Or.inr ⟨sid, named, rfl, only, connections_acceptSSL s sid hello p.lib⟩, ?_⟩
            constructor
            · rintro ⟨ssl, ctx, member⟩
              have inside := (List.mem_cons.mp member).resolve_left fun same => by cases same
              exact ⟨rfl, List.ne_nil_of_mem inside⟩
            · rintro ⟨_, switched⟩
              obtain ⟨call, member⟩ := List.exists_mem_of_ne_nil named switched
              obtain ⟨ctx, rfl⟩ := only call member
              exact ⟨_, ctx, List.mem_cons_of_mem _ member⟩

/-! ### Own connections -/

/-- A connection of a socket has been given the socket's descriptor, and no other. Descriptor 0
stands for none: the constructor makes a new one then. -/
structure Wired (p : Program) : Prop where
  own : ∀ {n s ssl}, p.sockets n = some s → s.SSL = some ssl →
    ∃ sid, .setFd ssl sid ∈ p.lib.marks ∧ (sid ≠ 0 → s.SID = sid)
  once : ∀ {ssl sid sid'}, .setFd ssl sid ∈ p.lib.marks → .setFd ssl sid' ∈ p.lib.marks → sid = sid'
  old : ∀ {ssl sid}, .setFd ssl sid ∈ p.lib.marks → ssl < p.lib.connections

/-- Each connection of a socket was with a socket of the same descriptor, or has been given one. -/
def Traced (p q : Program) : Prop := ∀ n s ssl, q.sockets n = some s → s.SSL = some ssl →
  (∃ m t, p.sockets m = some t ∧ t.SSL = some ssl ∧ t.SID = s.SID) ∨
    ∃ sid, .setFd ssl sid ∈ q.lib.marks ∧ (sid ≠ 0 → s.SID = sid)

theorem traced_put {p : Program} {n : Nat} {s : CNetHandlerSocket} (here : p.sockets n = some s)
    {result : CNetHandlerSocket × Library} (same : result.1.SSL = s.SSL)
    (same' : result.1.SID = s.SID) : Traced p (p.put n result) := by
  intro m t ssl there has
  left
  by_cases at' : m = n
  · subst at'
    obtain rfl := Option.some.inj ((put_here p m result).symm.trans there)
    exact ⟨m, s, here, same ▸ has, same'.symm⟩
  · exact ⟨m, t, by simpa [Program.put, at'] using there, has, rfl⟩

theorem traced_add {p : Program} {n : Nat} {s sock : CNetHandlerSocket} {lib : Library}
    (left : s.SSL = none) (given : ∀ ssl, sock.SSL = some ssl →
      ∃ sid, .setFd ssl sid ∈ lib.marks ∧ (sid ≠ 0 → sock.SID = sid)) :
    Traced p ((p.put n (s, lib)).add (sock, lib)) := by
  intro m t ssl there has
  by_cases new : m = p.made
  · subst new
    obtain rfl := Option.some.inj
      ((put_here (p.put n (s, lib)) p.made (sock, lib)).symm.trans there)
    exact Or.inr (given ssl has)
  · have before : (p.put n (s, lib)).sockets m = some t :=
      (Function.update_of_ne new _ _).symm.trans there
    by_cases same : m = n
    · subst same
      obtain rfl := Option.some.inj ((put_here p m (s, lib)).symm.trans before)
      exact absurd (left.symm.trans has) nofun
    · exact Or.inl ⟨m, t, (Function.update_of_ne same _ _).symm.trans before, has, rfl⟩

/-- One socket of `p` has been replaced, or one has been added. -/
theorem traced_of {p q : Program} {n : Nat} (others : ∀ m, m ≠ n → q.sockets m = p.sockets m)
    (here : ∀ s ssl, q.sockets n = some s → s.SSL = some ssl →
      ∃ sid, .setFd ssl sid ∈ q.lib.marks ∧ (sid ≠ 0 → s.SID = sid)) : Traced p q := by
  intro m t ssl there has
  by_cases same : m = n
  · subst same
    exact Or.inr (here t ssl there has)
  · exact Or.inl ⟨m, t, (others m same) ▸ there, has, rfl⟩

namespace Wired

variable {p q : Program}

theorem adds (wired : Wired p) {asks : Prop} (adds : p.lib.Adds q.lib asks)
    (traced : Traced p q) : Wired q := by
  obtain ⟨new, marks, shape, _⟩ := adds
  have split (ssl : Nat) (sid : Int) : .setFd ssl sid ∈ q.lib.marks ↔
      .setFd ssl sid ∈ p.lib.marks ∨ .setFd ssl sid ∈ new := by
    rw [marks, List.mem_append]
  have fresh : ∃ sid', ∀ ssl sid, .setFd ssl sid ∈ new → ssl = p.lib.connections ∧ sid = sid' ∧
      q.lib.connections = p.lib.connections + 1 := by
    rcases shape with ⟨rfl, _⟩ | ⟨sid', named, rfl, only, more⟩
    · exact ⟨0, nofun⟩
    · refine ⟨sid', fun ssl sid member => ?_⟩
      rcases List.mem_cons.mp member with same | inside
      · cases same
        exact ⟨rfl, rfl, more⟩
      · obtain ⟨ctx, other⟩ := only _ inside
        cases other
  have grows : p.lib.connections ≤ q.lib.connections := by
    rcases shape with ⟨_, same⟩ | ⟨_, _, _, _, more⟩ <;> omega
  obtain ⟨sid', fresh⟩ := fresh
  refine ⟨fun {n s ssl} there has => ?_, fun {ssl sid sid''} one two => ?_,
    fun {ssl sid} member => ?_⟩
  · rcases traced n s ssl there has with ⟨m, t, old, had, same⟩ | given
    · obtain ⟨sid, member, own⟩ := wired.own old had
      exact ⟨sid, (split _ _).mpr (Or.inl member), fun positive => same ▸ own positive⟩
    · exact given
  · rcases (split _ _).mp one with one | one <;> rcases (split _ _).mp two with two | two
    · exact wired.once one two
    · have below := wired.old one
      have new := (fresh _ _ two).1
      omega
    · have below := wired.old two
      have new := (fresh _ _ one).1
      omega
    · exact (fresh _ _ one).2.1.trans (fresh _ _ two).2.1.symm
  · rcases (split _ _).mp member with member | member
    · exact (wired.old member).trans_le grows
    · obtain ⟨rfl, _, more⟩ := fresh _ _ member
      omega

theorem next (wired : Wired p) (sound : Sound p) (op : Op) : Wired (p.next op) := by
  refine wired.adds (adds_next op) ?_
  cases op with
  | createSocket ssl sock =>
    refine @traced_of _ _ p.made (fun m other => Function.update_of_ne other _ _) ?_
    intro s ssl' there has
    obtain rfl := Option.some.inj ((put_here p p.made
      (CNetHandlerSocket.new 0 sock ssl false none none p.lib)).symm.trans there)
    cases ssl <;> cases has
  | parsePKCS12 there => exact fun m t ssl there has => Or.inl ⟨m, t, there, has, rfl⟩
  | call n call =>
    cases here : p.sockets n with
    | none =>
      intro m t ssl there has
      simp only [Program.next, here] at there
      exact Or.inl ⟨m, t, there, has, rfl⟩
    | some s =>
      rw [next_call here]
      cases call with
      | useCTX => exact traced_put here rfl rfl
      | useMem => exact traced_put here rfl rfl
      | setSSLMutual => exact traced_put here rfl rfl
      | setSNIEnabled => exact traced_put here rfl rfl
      | addSSLCertificateToSNI => exact traced_put here rfl rfl
      | setSNIClientHost => exact traced_put here rfl rfl
      | openClientCertificateX509 => exact traced_put here rfl rfl
      | getClientCertificate => exact traced_put here rfl rfl
      | readBuffer => exact traced_put here rfl rfl
      | writeBuffer => exact traced_put here rfl rfl
      | delete =>
        refine @traced_of _ _ n (fun m other => Function.update_of_ne other _ _) ?_
        intro t ssl there
        simp [Program.call] at there
      | connect connected =>
        show Traced p (p.put n (s.connect connected p.lib))
        unfold CNetHandlerSocket.connect
        split
        · refine @traced_of _ _ n (fun m other => Function.update_of_ne other _ _) ?_
          intro t ssl there has
          obtain rfl := Option.some.inj ((put_here p n (s.connectSSL p.lib)).symm.trans there)
          obtain rfl := Option.some.inj has
          refine ⟨s.SID, ?_, fun _ => rfl⟩
          simp [Program.put, CNetHandlerSocket.connectSSL, CNetHandlerSocket.setSNIClientHost,
            LibraryCall.isMark]
        · exact traced_put here rfl rfl
      | accept refused sid sock hello =>
        cases refused with
        | true => exact fun m t ssl there has => Or.inl ⟨m, t, there, has, rfl⟩
        | false =>
          cases secure : s.SSLEnabled with
          | false =>
            rw [call_accept_plain secure (sound.fit here)]
            exact traced_add rfl fun _ has => by cases has
          | true =>
            obtain ⟨named, marks, _⟩ := marks_acceptSSL s sid hello p.lib
            rw [call_accept secure]
            refine traced_add rfl fun ssl has => ?_
            obtain rfl := Option.some.inj has
            refine ⟨sid, marks ▸ by simp, fun positive => ?_⟩
            simp [positive]

end Wired

theorem run_wired {ops : List Op} {p : Program} (run : Runs Program.Step .new ops p) :
    Wired p := by
  have start : Wired .new := by
    constructor
    · exact fun there => nomatch there
    · exact fun member => nomatch member
    · exact fun member => nomatch member
  refine (run.invariant (P := fun p => Sound p ∧ Wired p) ⟨sound_new, start⟩ ?_).2
  rintro p op q ⟨sound, wired⟩ ⟨allowed, rfl⟩
  exact ⟨sound.step allowed, wired.next sound op⟩

theorem mem_marks {lib : Library} {call : LibraryCall} (mark : call.isMark = true) :
    call ∈ lib.marks ↔ call ∈ lib.calls := by
  simp [Library.marks, mark]

theorem count_released (lib : Library) (o : Object) :
    lib.log.count (released o) = lib.calls.count (match o with
      | .connection ssl => .freeConnection ssl
      | .context ctx => .freeContext ctx) := by
  unfold Library.log
  induction lib.calls with
  | nil => rfl
  | cons call calls ih =>
    rw [List.flatMap_cons, List.count_append, List.count_cons, ih, Nat.add_comm]
    congr 1
    cases o <;> cases call <;> simp [LibraryCall.events, List.count_singleton, List.count_eq_zero]

theorem asked_iff {ops : List Op} {p : Program} (run : Runs Program.Step .new ops p) :
    (∃ ssl ctx, .switchContext ssl ctx ∈ p.lib.marks) ↔
      ¬ Each (fun pre op => ¬ AsksName (pre.foldl Program.next .new) op) [] ops := by
  induction run with
  | nil => exact ⟨nofun, fun none => absurd trivial none⟩
  | snoc before last ih =>
    obtain ⟨new, marks, _, asks⟩ := @adds_next _ _
    rw [last.2, marks, each_append, not_and_or, ← ih]
    simp only [List.mem_append, exists_or, asks, List.nil_append, each_cons, each_nil, and_true,
      not_not, ← run_eq before]

/-- The connection of a socket is with no other, has not been freed, and goes over the socket's own
descriptor. -/
theorem connection_own {ops : List Op} {p : Program} (run : Runs Program.Step .new ops p) {n : Nat}
    {s : CNetHandlerSocket} {ssl : Nat} (here : p.sockets n = some s) (has : s.SSL = some ssl) :
    (∀ m t, p.sockets m = some t → t.SSL = some ssl → m = n) ∧
      .freeConnection ssl ∉ p.lib.calls ∧
      ∃ sid, (∀ sid', .setFd ssl sid' ∈ p.lib.calls ↔ sid' = sid) ∧ (sid ≠ 0 → s.SID = sid) := by
  have sound := run_sound run
  have wired := run_wired run
  have own := (held_here here (.connection ssl)).mpr has
  refine ⟨fun m t there same => ?_, fun freed => ?_, ?_⟩
  · exact sound.books.alone ((held_here there (.connection ssl)).mpr same) own
  · have gone : released (.connection ssl) ∈ p.lib.log :=
      List.mem_flatMap.mpr ⟨_, freed, List.mem_cons_self⟩
    exact (sound.books.live own).2 gone
  · obtain ⟨sid, given, same⟩ := wired.own here has
    refine ⟨sid, fun sid' => ⟨fun other => ?_, ?_⟩, same⟩
    · exact wired.once ((mem_marks rfl).mpr other) given
    · rintro rfl
      exact (mem_marks rfl).mp given

def examplePrefix : List Op :=
  [.createSocket true 3, .call 0 .useCTX, .call 0 (.accept false 4 9 none)]

theorem connection_own_accepted : ∃ sid : Int, (∀ sid',
    .setFd 0 sid' ∈ (examplePrefix.foldl Program.next .new).lib.calls ↔ sid' = sid) ∧
      (sid ≠ 0 → 4 = sid) := by
  have run : Runs Program.Step .new examplePrefix (examplePrefix.foldl Program.next .new) :=
    Follows.runs ⟨trivial, ⟨_, rfl, rfl⟩, ⟨_, rfl, rfl, rfl⟩, trivial⟩
  exact (@connection_own _ _ run 1 _ 0 rfl rfl).2.2

/-- Once all sockets have been deleted, every connection has been freed once; every context has if
and only if no client has asked for a name with a certificate of its own. -/
theorem objects_freed_iff {ops : List Op} {p : Program} (run : Runs Program.Step .new ops p)
    (closed : ∀ n, p.sockets n = none) :
    (∀ ssl < p.lib.connections, p.lib.calls.count (.freeConnection ssl) = 1) ∧
      ((∀ ctx < p.lib.contexts, p.lib.calls.count (.freeContext ctx) = 1) ↔
        Each (fun pre op => ¬ AsksName (pre.foldl Program.next .new) op) [] ops) := by
  have sound := run_sound run
  have empty : ∀ n o, ¬ p.Held n o := by
    rintro n o ⟨s, there, _⟩
    rw [closed] at there
    cases there
  have asked : (∃ ssl ctx, .switchContext ssl ctx ∈ p.lib.calls) ↔
      ¬ Each (fun pre op => ¬ AsksName (pre.foldl Program.next .new) op) [] ops := by
    have mark (ssl ctx : Nat) := @mem_marks p.lib (.switchContext ssl ctx) rfl
    rw [← asked_iff run]
    simp only [mark]
  constructor
  · intro ssl made'
    rw [← count_released p.lib (.connection ssl)]
    refine (sound.books.released_iff empty ((sound.connections ssl).mpr made')).mpr ?_
    rintro ⟨_, _, _, same⟩
    cases same
  · rw [← not_iff_not, ← asked]
    push Not
    constructor
    · rintro ⟨ctx, made', left⟩
      rw [← count_released p.lib (.context ctx)] at left
      have lost := mt (sound.books.released_iff empty ((sound.contexts ctx).mpr made')).mpr left
      obtain ⟨ssl, ctx', switched, _⟩ := not_not.mp lost
      exact ⟨ssl, ctx', switched⟩
    · rintro ⟨ssl, ctx, switched⟩
      have lost : p.lib.Lost (.context ctx) := ⟨ssl, ctx, switched, rfl⟩
      have there := ((sound.books.live_iff _).mpr (Or.inr lost)).1
      refine ⟨ctx, (sound.contexts ctx).mp there, ?_⟩
      rw [← count_released p.lib (.context ctx)]
      exact fun freed => (sound.books.released_iff empty there).mp freed lost

def exampleNamed : List Op :=
  [.createSocket true 3, .call 0 (.setSNIEnabled true),
    .call 0 (.addSSLCertificateToSNI ⟨"a.org".toList, 1, 2, [], false⟩),
    .call 0 (.accept false 4 9 (some "a.org".toList)), .call 0 .delete, .call 1 .delete]

theorem objects_freed_iff_named :
    (exampleNamed.foldl Program.next .new).lib.calls.count (.freeConnection 0) = 1 ∧
      ¬ ∀ ctx < (exampleNamed.foldl Program.next .new).lib.contexts,
        (exampleNamed.foldl Program.next .new).lib.calls.count (.freeContext ctx) = 1 := by
  have run : Runs Program.Step .new exampleNamed (exampleNamed.foldl Program.next .new) :=
    Follows.runs ⟨trivial, ⟨_, rfl, rfl⟩, ⟨_, rfl, rfl⟩, ⟨_, rfl, rfl, rfl⟩, ⟨_, rfl, trivial⟩,
      ⟨_, rfl, trivial⟩, trivial⟩
  have closed : ∀ n, (exampleNamed.foldl Program.next .new).sockets n = none := by
    intro n
    rcases n with _ | _ | n <;> rfl
  obtain ⟨freed, left⟩ := objects_freed_iff run closed
  refine ⟨freed 0 (by decide), fun all => ?_⟩
  refine (left.mp all).2.2.2.1 ⟨_, rfl, rfl, rfl, _, rfl, _, List.mem_singleton_self _, ?_⟩
  decide

end Solusek.Tls
