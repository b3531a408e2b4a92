import Solusek.Lib.Runs
import Solusek.Model.Listener

/-!
# Server names

The callback reports the name and the context through fields of the listening socket, and
nothing resets them. So a connection without a listed name gets those of the last one that had
a listed name.
-/

namespace Solusek.Listening

structure Attempt where
  ipaddr : Str
  hello : Option Str
  deriving DecidableEq, Repr

/-- A listening socket with SNI enabled that has accepted nothing yet. -/
def listening (sslMutual : Bool) (ctx : SSL_CTX) (SNIList : List SNIObj)
    (Blacklist Whitelist : List IPAddressItem) : Listener where
  socket := { CNetHandlerSocket.new true sslMutual (some ctx) [] with
    SNIEnabled := true, SNIList, Blacklist, Whitelist }
  contexts := ctx.id + 1

/-- It is what the calls that set a listening socket up make of a new one. -/
theorem listening_socket (sslMutual : Bool) (ctx : SSL_CTX) (SNIList : List SNIObj)
    (Blacklist Whitelist : List IPAddressItem) :
    (listening sslMutual ctx SNIList Blacklist Whitelist).socket =
      Whitelist.foldl .addWhitelist (Blacklist.foldl .addBlacklist
        (SNIList.foldl .addSSLCertificateToSNI
          ((CNetHandlerSocket.new true sslMutual (some ctx) []).setSNIEnabled true))) := by
  have certificates := @Transition.foldl_batch _ _ CNetHandlerSocket.addSSLCertificateToSNI
    (fun s l => { s with SNIList := s.SNIList ++ l }) (fun s => by simp)
    fun s obj l => by simp [CNetHandlerSocket.addSSLCertificateToSNI]
  have black := @Transition.foldl_batch _ _ CNetHandlerSocket.addBlacklist
    (fun s l => { s with Blacklist := s.Blacklist ++ l }) (fun s => by simp)
    fun s item l => by simp [CNetHandlerSocket.addBlacklist]
  have white := @Transition.foldl_batch _ _ CNetHandlerSocket.addWhitelist
    (fun s l => { s with Whitelist := s.Whitelist ++ l }) (fun s => by simp)
    fun s item l => by simp [CNetHandlerSocket.addWhitelist]
  rw [certificates, black, white]
  rfl

namespace Listener

def after (l : Listener) (attempts : List Attempt) : Listener :=
  attempts.foldl (fun l a => (l.accept a.ipaddr a.hello).2) l

/-- The entry that a handshake picks. -/
def entry (l : Listener) (hello : Option Str) : Option SNIObj :=
  hello.bind fun cname => l.socket.SNIList.find? fun it => cstr cname == it.Host

/-- The name and the context of the connection's own handshake, if the next context gets the
number `id`. -/
def own (l : Listener) (id : Nat) (hello : Option Str) : Str × Option SSL_CTX :=
  match l.entry hello with
  | some it => (it.Host, some (it.context id))
  | none => ([], l.socket.CTX)

/-- An attempt that gets to its handshake and sends a listed name. -/
def Names (l : Listener) (a : Attempt) : Prop :=
  l.socket.refuses a.ipaddr = .ok false ∧ l.entry a.hello ≠ none

/-- `l` is `l₀` but for what its callback has set. -/
structure Follows (l₀ l : Listener) : Prop where
  socket : l.socket = { l₀.socket with
    ChildCTX := l.socket.ChildCTX, SNIHostName := l.socket.SNIHostName }
  contexts : l₀.contexts ≤ l.contexts

/-! ### One connection -/

theorem sniCallback_listed {l : Listener} {hello : Option Str} {it : SNIObj}
    (listed : l.entry hello = some it) : l.sniCallback hello =
      { socket := (l.socket.setChildCTX (it.context l.contexts)).setSNIHostName it.Host
        contexts := l.contexts + 1 } := by
  cases hello with
  | none => cases listed
  | some cname =>
    have found : l.socket.SNIList.find? (fun it => cstr cname == it.Host) = some it := listed
    have name : cstr cname = it.Host := by simpa using List.find?_some found
    unfold sniCallback
    dsimp only
    rw [found, name]

theorem sniCallback_unlisted {l : Listener} {hello : Option Str} (unlisted : l.entry hello = none) :
    l.sniCallback hello = l := by
  cases hello with
  | none => rfl
  | some cname =>
    have missed : l.socket.SNIList.find? (fun it => cstr cname == it.Host) = none := unlisted
    unfold sniCallback
    dsimp only
    rw [missed]

section Accept

variable {l : Listener} {ipaddr : Str} {hello : Option Str}

theorem accept_handshake (ssl : l.socket.SSLEnabled = true) (sni : l.socket.SNIEnabled = true)
    (let_in : l.socket.refuses ipaddr = .ok false) :
    (l.accept ipaddr hello).2 = l.sniCallback hello ∧
    ∀ sock, (l.accept ipaddr hello).1 = .ok (some sock) →
      (sock.getSNIHostName, sock.CTX) = ((l.sniCallback hello).socket.SNIHostName,
        (l.sniCallback hello).socket.ChildCTX.or (l.sniCallback hello).socket.CTX) := by
  have kept : (l.sniCallback hello).socket.SSLEnabled = true := by
    cases entry : l.entry hello with
    | none => rw [sniCallback_unlisted entry, ssl]
    | some it => rw [sniCallback_listed entry]; exact ssl
  unfold accept setupSSLSocket
  rw [let_in]
  simp only [ssl, sni, if_true, kept]
  refine ⟨trivial, fun sock accepted => ?_⟩
  obtain rfl := Option.some.inj (Except.ok.inj accepted)
  cases (l.sniCallback hello).socket.ChildCTX <;> rfl

theorem accept_closed (closed : l.socket.refuses ipaddr ≠ .ok false) :
    (l.accept ipaddr hello).2 = l ∧ ∀ sock, (l.accept ipaddr hello).1 ≠ .ok (some sock) := by
  unfold accept
  split <;> rename_i refused
  · exact ⟨rfl, fun sock => by simp⟩
  · exact ⟨rfl, fun sock => by simp⟩
  · exact absurd refused closed

end Accept

/-! ### Many connections -/

section Run

variable {l₀ l : Listener} {a : Attempt}

theorem Follows.refuses (follows : Follows l₀ l) (ipaddr : Str) :
    l.socket.refuses ipaddr = l₀.socket.refuses ipaddr := by
  rw [follows.socket]
  rfl

theorem Follows.entry (follows : Follows l₀ l) (hello : Option Str) :
    l.entry hello = l₀.entry hello := by
  unfold Listener.entry
  rw [follows.socket]

theorem Follows.handshake (follows : Follows l₀ l) (ssl : l₀.socket.SSLEnabled = true)
    (sni : l₀.socket.SNIEnabled = true) (let_in : l₀.socket.refuses a.ipaddr = .ok false) :
    (l.accept a.ipaddr a.hello).2 = l.sniCallback a.hello ∧
    ∀ sock, (l.accept a.ipaddr a.hello).1 = .ok (some sock) →
      (sock.getSNIHostName, sock.CTX) = ((l.sniCallback a.hello).socket.SNIHostName,
        (l.sniCallback a.hello).socket.ChildCTX.or (l.sniCallback a.hello).socket.CTX) :=
  accept_handshake (by rw [follows.socket]; exact ssl) (by rw [follows.socket]; exact sni)
    ((follows.refuses _).trans let_in)

theorem accept_named (follows : Follows l₀ l) (ssl : l₀.socket.SSLEnabled = true)
    (sni : l₀.socket.SNIEnabled = true) (names : l₀.Names a) :
    ∃ it : SNIObj, (l.accept a.ipaddr a.hello).2 =
      { socket := (l.socket.setChildCTX (it.context l.contexts)).setSNIHostName it.Host
        contexts := l.contexts + 1 } := by
  obtain ⟨let_in, named⟩ := names
  obtain ⟨it, entry⟩ := Option.ne_none_iff_exists'.mp named
  refine ⟨it, ?_⟩
  rw [(follows.handshake ssl sni let_in).1]
  exact sniCallback_listed ((follows.entry _).trans entry)

theorem accept_unnamed (follows : Follows l₀ l) (ssl : l₀.socket.SSLEnabled = true)
    (sni : l₀.socket.SNIEnabled = true) (unnamed : ¬ l₀.Names a) :
    (l.accept a.ipaddr a.hello).2 = l := by
  by_cases let_in : l₀.socket.refuses a.ipaddr = .ok false
  · have entry : l₀.entry a.hello = none := by
      by_contra named
      exact unnamed ⟨let_in, named⟩
    rw [(follows.handshake ssl sni let_in).1]
    exact sniCallback_unlisted ((follows.entry _).trans entry)
  · exact (accept_closed (by rwa [follows.refuses])).1

/-- The first connection that names a listed host leaves a context behind, and nothing takes it
away. -/
theorem after_follows (ssl : l₀.socket.SSLEnabled = true) (sni : l₀.socket.SNIEnabled = true)
    (before : List Attempt) :
    Follows l₀ (l₀.after before) ∧
    ((∀ b ∈ before, ¬ l₀.Names b) → l₀.after before = l₀) ∧
    ((∃ b ∈ before, l₀.Names b) →
      ∃ c, (l₀.after before).socket.ChildCTX = some c ∧ l₀.contexts ≤ c.id) := by
  induction before using List.reverseRecOn with
  | nil => exact ⟨⟨rfl, le_rfl⟩, fun _ => rfl, by simp⟩
  | append_singleton before b ih =>
    obtain ⟨follows, none_named, some_named⟩ := ih
    have step : l₀.after (before ++ [b]) = ((l₀.after before).accept b.ipaddr b.hello).2 := by
      simp [after]
    rw [step]
    by_cases names : l₀.Names b
    · obtain ⟨it, left⟩ := accept_named follows ssl sni names
      rw [left]
      refine ⟨⟨?_, Nat.le_succ_of_le follows.contexts⟩, fun unnamed => ?_, fun _ => ?_⟩
      · conv_lhs => rw [follows.socket]
        rfl
      · exact absurd names (unnamed b (by simp))
      · exact ⟨_, rfl, follows.contexts⟩
    · rw [accept_unnamed follows ssl sni names]
      refine ⟨follows, fun unnamed => ?_, fun named => ?_⟩
      · exact none_named fun c member => unnamed c (List.mem_append_left _ member)
      · obtain ⟨c, member, nc⟩ := named
        rcases List.mem_append.mp member with early | late
        · exact some_named ⟨c, early, nc⟩
        · exact absurd (List.mem_singleton.mp late ▸ nc) names

end Run

/-- A connection gets the name and the context of its own handshake exactly if it sends a listed
name or no connection before it did. -/
theorem handshake_own_iff (sslMutual : Bool) (ctx : SSL_CTX) (SNIList : List SNIObj)
    (Blacklist Whitelist : List IPAddressItem) (before : List Attempt) (a : Attempt)
    (sock : CNetHandlerSocket)
    (accepted : (((listening sslMutual ctx SNIList Blacklist Whitelist).after before).accept
      a.ipaddr a.hello).1 = .ok (some sock)) :
    (sock.getSNIHostName, sock.CTX) =
        (listening sslMutual ctx SNIList Blacklist Whitelist).own
          ((listening sslMutual ctx SNIList Blacklist Whitelist).after before).contexts a.hello ↔
      (listening sslMutual ctx SNIList Blacklist Whitelist).entry a.hello ≠ none ∨
        ∀ b ∈ before, ¬ (listening sslMutual ctx SNIList Blacklist Whitelist).Names b := by
  generalize start : listening sslMutual ctx SNIList Blacklist Whitelist = l₀ at accepted ⊢
  have ssl : l₀.socket.SSLEnabled = true := by rw [← start]; rfl
  have sni : l₀.socket.SNIEnabled = true := by rw [← start]; rfl
  have fresh : l₀.socket.ChildCTX = none := by rw [← start]; rfl
  have unnamed : l₀.socket.SNIHostName = [] := by rw [← start]; rfl
  have own_ctx : l₀.socket.CTX = some ctx := by rw [← start]; rfl
  have next : l₀.contexts = ctx.id + 1 := by rw [← start]; rfl
  obtain ⟨follows, none_named, some_named⟩ := after_follows ssl sni before
  have let_in : l₀.socket.refuses a.ipaddr = .ok false := by
    by_contra closed
    exact (accept_closed (by rwa [follows.refuses])).2 sock accepted
  rw [(follows.handshake ssl sni let_in).2 sock accepted]
  cases entry : l₀.entry a.hello with
  | some it =>
    rw [sniCallback_listed ((follows.entry _).trans entry)]
    simp [own, entry, CNetHandlerSocket.setChildCTX, CNetHandlerSocket.setSNIHostName]
  | none =>
    rw [sniCallback_unlisted ((follows.entry _).trans entry)]
    simp only [own, entry, ne_eq, not_true_eq_false, false_or]
    constructor
    · intro same b member names
      obtain ⟨c, left, late⟩ := some_named ⟨b, member, names⟩
      have equal : some c = some ctx := by
        rw [← own_ctx]
        have second : (l₀.after before).socket.ChildCTX.or _ = l₀.socket.CTX :=
          congrArg Prod.snd same
        rw [← second, left]
        rfl
      have number := congrArg SSL_CTX.id (Option.some.inj equal)
      omega
    · intro none_before
      rw [none_named none_before, fresh, unnamed]
      rfl

/-- Two names, each with a certificate of its own. -/
def twoNames : Listener :=
  listening false ⟨0, 1, 2, [], false⟩
    [⟨"a.example".toList, 3, 4, [], true⟩, ⟨"b.example".toList, 5, 6, [], true⟩] [] []

/-- Behind connections that send no name and an unlisted one, a connection without a name gets none;
behind one more with a listed name, a connection with the other name gets its own. -/
theorem handshake_own_iff_later :
    (∃ sock, ((twoNames.after [⟨[], none⟩, ⟨[], some "c.example".toList⟩]).accept [] none).1 =
        .ok (some sock) ∧
      (sock.getSNIHostName, sock.CTX) = ([], some ⟨0, 1, 2, [], false⟩)) ∧
    ∃ sock, ((twoNames.after [⟨[], none⟩, ⟨[], some "c.example".toList⟩,
        ⟨[], some "a.example".toList⟩]).accept [] (some "b.example".toList)).1 = .ok (some sock) ∧
      (sock.getSNIHostName, sock.CTX) = ("b.example".toList, some ⟨2, 5, 6, [], true⟩) := by
  have unnamed : ∀ b ∈ [⟨[], none⟩, ⟨[], some "c.example".toList⟩], ¬ twoNames.Names b := by
    intro b member names
    rcases List.mem_pair.mp member with rfl | rfl
    · exact names.2 rfl
    · exact names.2 (by decide)
  refine ⟨⟨_, rfl, ?_⟩, ⟨_, rfl, ?_⟩⟩
  · exact (handshake_own_iff false ⟨0, 1, 2, [], false⟩
      [⟨"a.example".toList, 3, 4, [], true⟩, ⟨"b.example".toList, 5, 6, [], true⟩] [] []
      [⟨[], none⟩, ⟨[], some "c.example".toList⟩] ⟨[], none⟩ _ rfl).mpr (Or.inr unnamed)
  · exact (handshake_own_iff false ⟨0, 1, 2, [], false⟩
      [⟨"a.example".toList, 3, 4, [], true⟩, ⟨"b.example".toList, 5, 6, [], true⟩] [] []
      [⟨[], none⟩, ⟨[], some "c.example".toList⟩, ⟨[], some "a.example".toList⟩]
      ⟨[], some "b.example".toList⟩ _ rfl).mpr (Or.inl (by decide))

/-- A connection that sends no name gets that of the connection before it. -/
theorem handshake_left_behind : ¬ ∀ (sslMutual : Bool) (ctx : SSL_CTX) (SNIList : List SNIObj)
    (Blacklist Whitelist : List IPAddressItem) (before : List Attempt) (a : Attempt)
    (sock : CNetHandlerSocket),
    (((listening sslMutual ctx SNIList Blacklist Whitelist).after before).accept
      a.ipaddr a.hello).1 = .ok (some sock) →
    (sock.getSNIHostName, sock.CTX) =
      (listening sslMutual ctx SNIList Blacklist Whitelist).own
        ((listening sslMutual ctx SNIList Blacklist Whitelist).after before).contexts a.hello := by
  intro claim
  have same := claim false ⟨0, 1, 2, [], false⟩ [⟨"a.example".toList, 3, 4, [], true⟩] [] []
    [⟨[], some "a.example".toList⟩] ⟨[], none⟩ _ rfl
  exact absurd (congrArg Prod.fst same) (by decide)

end Listener

end Solusek.Listening
