import Solusek.Lib.Ledgers
import Solusek.Model.Certificates

/-!
# Every certificate freed

Each kind of object is a ledger: a call makes some, gives some back and keeps others in
`SNIList`, and `cleanupSNI` gives back all that is kept, without forgetting it.
-/

namespace Solusek.Certificates

open Ledgers

inductive Kind where
  | cert
  | key
  | file

namespace Call

/-- The call adds an entry to `SNIList`. -/
def Adds : Call → Prop
  | .addSSLCertificateToSNI _ world _ =>
    (∃ found, world.cert = some found ∧ found.first = true) ∧ world.key = some true
  | .cleanupSNI => False

/-- The call succeeds, or fails at the certificate file, or at the key in a file that was read
behind a file with one certificate alone. -/
def Sound : Call → Prop
  | .addSSLCertificateToSNI _ world _ => ∀ found, world.cert = some found → found.first = true ∧
      (world.key = some true ∨ world.key = some false ∧ true ∉ found.behind)
  | .cleanupSNI => True

/-- What the call does to the objects of one kind. -/
def move : Call → Kind → Move
  | .cleanupSNI, _ => .giveAll
  | .addSSLCertificateToSNI _ world _, kind =>
    match world.cert with
    | none => .take 0 [] []
    | some ⟨false, _⟩ =>
      match kind with
      | .cert | .key => .take 0 [] []
      | .file => .take 1 [] []
    | some ⟨true, behind⟩ =>
      match world.key, kind with
      | none, .cert => .take (behind.count true + 1) [] []
      | none, .key => .take 0 [] []
      | none, .file => .take 1 [0] []
      | some false, .cert => .take (behind.count true + 1) [0] []
      | some false, .key => .take 0 [] []
      | some false, .file => .take 2 [0, 1] []
      | some true, .cert => .take (behind.count true + 1) [] (List.range (behind.count true + 1))
      | some true, .key => .take 1 [] [0]
      | some true, .file => .take 2 [0, 1] []

end Call

namespace CNetHandlerSocket

def ledger (s : CNetHandlerSocket) : Kind → Ledger
  | .cert =>
    { made := s.certs
      held := s.SNIList.flatMap fun it => it.Cert :: it.Aux
      back := s.freedCerts }
  | .key => { made := s.keys, held := s.SNIList.map fun it => it.Key, back := s.freedKeys }
  | .file => { made := s.files, held := [], back := s.closedFiles }

/-! ### One call -/

theorem readAux_eq (s : CNetHandlerSocket) (reads : List Bool) :
    s.readAux reads = ((List.range (reads.count true)).map (s.certs + ·),
      { s with certs := s.certs + reads.count true }) := by
  induction reads generalizing s with
  | nil => rfl
  | cons good reads ih =>
    cases good with
    | false =>
      rw [readAux, List.count_cons_of_ne (by decide)]
      exact ih s
    | true =>
      rw [readAux]
      simp only [readX509, if_true, ih, List.count_cons_self, List.range_succ_eq_map, List.map_cons,
        List.map_map, Nat.add_zero]
      have sum : s.certs + 1 + reads.count true = s.certs + (reads.count true + 1) := by omega
      rw [sum]
      refine Prod.ext (congrArg (List.cons s.certs) (List.map_congr_left fun x _ => ?_)) rfl
      rw [Function.comp_apply]
      omega

theorem foldl_freeX509 (s : CNetHandlerSocket) (certs : List Nat) :
    certs.foldl freeX509 s = { s with freedCerts := s.freedCerts ++ certs } := by
  induction certs generalizing s with
  | nil => simp
  | cons cert certs ih =>
    rw [List.foldl_cons, ih]
    simp [freeX509]

theorem cleanupSNI_eq (s : CNetHandlerSocket) :
    s.cleanupSNI = { s with
      freedCerts := s.freedCerts ++ s.SNIList.flatMap fun it => it.Cert :: it.Aux
      freedKeys := s.freedKeys ++ s.SNIList.map fun it => it.Key } := by
  have freed (entries : List Listening.SNIObj) (s : CNetHandlerSocket) :
      entries.foldl (fun s it => it.Aux.foldl freeX509 ((s.freeX509 it.Cert).freeKey it.Key)) s =
        { s with
          freedCerts := s.freedCerts ++ entries.flatMap fun it => it.Cert :: it.Aux
          freedKeys := s.freedKeys ++ entries.map fun it => it.Key } := by
    induction entries generalizing s with
    | nil => simp
    | cons it entries ih =>
      rw [List.foldl_cons, ih, foldl_freeX509]
      simp [freeX509, freeKey]
  exact freed s.SNIList s

theorem next_ledger (s : CNetHandlerSocket) (c : Call) (kind : Kind) :
    (s.next c).ledger kind = (s.ledger kind).step (c.move kind) := by
  cases c with
  | cleanupSNI => cases kind <;> simp [next, cleanupSNI_eq, ledger, Ledger.step, Call.move]
  | addSSLCertificateToSNI host world isMutual =>
    obtain ⟨cert, key⟩ := world
    rcases cert with _ | ⟨_ | _, behind⟩
    · cases kind <;> simp [next, addSSLCertificateToSNI, ledger, Ledger.step, Call.move]
    · cases kind <;>
        simp [next, addSSLCertificateToSNI, fopen, readX509, ledger, Ledger.step, Call.move]
    · rcases key with _ | _ | _ <;> cases kind <;>
        simp [next, addSSLCertificateToSNI, fopen, fclose, readX509, readAux_eq, readPrivateKey,
          freeX509, ledger, Ledger.step, Call.move, List.range_succ_eq_map, Nat.add_assoc,
          Nat.add_comm 1]

theorem next_enabled (s : CNetHandlerSocket) (c : Call) :
    (s.next c).SSLEnabled = s.SSLEnabled := by
  cases c with
  | cleanupSNI => rw [next, cleanupSNI_eq]
  | addSSLCertificateToSNI host world isMutual =>
    obtain ⟨cert, key⟩ := world
    rcases cert with _ | ⟨_ | _, behind⟩
    · rfl
    · rfl
    · rcases key with _ | _ | _ <;>
        simp [next, addSSLCertificateToSNI, fopen, fclose, readX509, readAux_eq, readPrivateKey,
          freeX509]

theorem next_list {c : Call} (idle : ¬ c.Adds) (s : CNetHandlerSocket) :
    (s.next c).SNIList = s.SNIList := by
  cases c with
  | cleanupSNI => rw [next, cleanupSNI_eq]
  | addSSLCertificateToSNI host world isMutual =>
    obtain ⟨cert, key⟩ := world
    rcases cert with _ | ⟨_ | _, behind⟩
    · rfl
    · rfl
    · rcases key with _ | _ | _
      · simp [next, addSSLCertificateToSNI, fopen, fclose, readX509, readAux_eq]
      · simp [next, addSSLCertificateToSNI, fopen, fclose, readX509, readAux_eq, readPrivateKey,
          freeX509]
      · exact absurd ⟨⟨_, rfl, rfl⟩, rfl⟩ idle

end CNetHandlerSocket

/-! ### What a call's move says of it -/

theorem move_bounded (c : Call) (kind : Kind) : (c.move kind).Bounded := by
  cases c with
  | cleanupSNI => trivial
  | addSSLCertificateToSNI host world isMutual =>
    obtain ⟨cert, key⟩ := world
    rcases cert with _ | ⟨_ | _, behind⟩ <;> rcases key with _ | _ | _ <;> cases kind <;>
      simp [Call.move, Move.Bounded]

theorem not_whole {n : Nat} (positive : 0 < n) : ¬ (Move.take n [] []).Whole := fun whole => by
  simpa using whole 0 positive

theorem whole_range (n : Nat) : (Move.take n [] (List.range n)).Whole := fun x below => by
  rw [List.count_nil, Nat.zero_add]
  exact List.count_eq_one_of_mem List.nodup_range (List.mem_range.mpr below)

/-- Freeing the first certificate is enough when it is the only one. -/
theorem whole_first (n : Nat) : (Move.take (n + 1) [0] []).Whole ↔ n = 0 := by
  constructor
  · intro whole
    by_contra more
    simpa using whole 1 (by omega)
  · rintro rfl x below
    obtain rfl : x = 0 := by omega
    rfl

theorem whole_files : (Move.take 2 [0, 1] []).Whole := fun x below => by
  have either : x = 0 ∨ x = 1 := by omega
  rcases either with rfl | rfl <;> rfl

theorem whole_nothing : (Move.take 0 [] []).Whole := fun _ below => absurd below (Nat.not_lt_zero _)

theorem move_whole_iff (c : Call) : (∀ kind, (c.move kind).Whole) ↔ c.Sound := by
  cases c with
  | cleanupSNI => exact ⟨fun _ => trivial, fun _ _ => trivial⟩
  | addSSLCertificateToSNI host world isMutual =>
    obtain ⟨cert, key⟩ := world
    rcases cert with _ | ⟨_ | _, behind⟩
    · refine ⟨fun _ found none => absurd none (by simp), fun _ kind => ?_⟩
      cases kind <;> exact whole_nothing
    · refine ⟨fun whole => absurd (whole .file) (not_whole Nat.one_pos), fun sound => ?_⟩
      exact absurd (sound _ rfl).1 Bool.false_ne_true
    · rcases key with _ | _ | _
      · refine ⟨fun whole => absurd (whole .cert) (not_whole (Nat.succ_pos _)), fun sound => ?_⟩
        exact absurd (sound _ rfl).2 (by simp)
      · constructor
        · rintro whole found ⟨⟩
          have alone := (whole_first _).mp (whole .cert)
          exact ⟨rfl, .inr ⟨rfl, List.count_eq_zero.mp alone⟩⟩
        · intro sound kind
          have alone : true ∉ behind := (sound _ rfl).2.elim (fun bad => nomatch bad) And.right
          cases kind with
          | cert => exact (whole_first _).mpr (List.count_eq_zero.mpr alone)
          | key => exact whole_nothing
          | file => exact whole_files
      · constructor
        · rintro whole found ⟨⟩
          exact ⟨rfl, .inl rfl⟩
        · intro sound kind
          cases kind with
          | cert => exact whole_range _
          | key => exact whole_range 1
          | file => exact whole_files

theorem move_keeps_iff (c : Call) : (∃ kind, (c.move kind).Keeps) ↔ c.Adds := by
  cases c with
  | cleanupSNI => exact ⟨fun ⟨_, keeps⟩ => keeps, False.elim⟩
  | addSSLCertificateToSNI host world isMutual =>
    obtain ⟨cert, key⟩ := world
    constructor
    · rintro ⟨kind, keeps⟩
      rcases cert with _ | ⟨_ | _, behind⟩
      · exact absurd rfl keeps
      · cases kind <;> exact absurd rfl keeps
      · rcases key with _ | _ | _
        · cases kind <;> exact absurd rfl keeps
        · cases kind <;> exact absurd rfl keeps
        · exact ⟨⟨_, rfl, rfl⟩, rfl⟩
    · rintro ⟨⟨found, rfl, first⟩, rfl⟩
      obtain ⟨_, behind⟩ := found
      cases first
      exact ⟨.key, List.cons_ne_nil _ _⟩

/-! ### Every run -/

theorem after_snoc (calls : List Call) (c : Call) : after (calls ++ [c]) = (after calls).next c := by
  rw [after, List.foldl_append]
  rfl

theorem after_ledger (calls : List Call) (kind : Kind) :
    (after calls).ledger kind = Ledger.run {} (calls.map fun c => c.move kind) := by
  induction calls using List.reverseRecOn with
  | nil => cases kind <;> rfl
  | append_singleton calls c ih =>
    rw [after_snoc, CNetHandlerSocket.next_ledger, ih, List.map_append, Ledger.run, Ledger.run,
      List.foldl_append]
    rfl

theorem after_enabled (calls : List Call) : (after calls).SSLEnabled = true := by
  induction calls using List.reverseRecOn with
  | nil => rfl
  | append_singleton calls c ih => rw [after_snoc, CNetHandlerSocket.next_enabled, ih]

/-- The destructor frees once more what the list keeps. -/
theorem destroy_ledger (calls : List Call) (kind : Kind) :
    (after calls).destroy.ledger kind =
      Ledger.run {} ((calls.map fun c => c.move kind) ++ [.giveAll]) := by
  have last : (after calls).destroy = after (calls ++ [.cleanupSNI]) := by
    rw [after_snoc, CNetHandlerSocket.destroy, if_pos (after_enabled calls)]
    rfl
  rw [last, after_ledger, List.map_append]
  rfl

theorem after_list {calls : List Call} (idle : ∀ c ∈ calls, ¬ c.Adds) :
    (after calls).SNIList = [] := by
  induction calls using List.reverseRecOn with
  | nil => rfl
  | append_singleton calls c ih =>
    rw [List.forall_mem_append, List.forall_mem_singleton] at idle
    rw [after_snoc, CNetHandlerSocket.next_list idle.2, ih idle.1]

/-- After these calls and the destructor, each object was freed or closed once, and after every
`cleanupSNI` no name found an entry before the next one was added. -/
structure Clean (calls : List Call) : Prop where
  certs : ∀ x < (after calls).destroy.certs, (after calls).destroy.freedCerts.count x = 1
  keys : ∀ x < (after calls).destroy.keys, (after calls).destroy.freedKeys.count x = 1
  files : ∀ x < (after calls).destroy.files, (after calls).destroy.closedFiles.count x = 1
  silent : ∀ before later, before ++ .cleanupSNI :: later <+: calls → (∀ c ∈ later, ¬ c.Adds) →
    ∀ cname, (after (before ++ .cleanupSNI :: later)).sniEntry cname = none

/-- No call loses an object, and nothing is cleaned up behind an entry. -/
def SoundRun (calls : List Call) : Prop :=
  (∀ c ∈ calls, c.Sound) ∧ calls.Pairwise fun c d => ¬ (c.Adds ∧ d = .cleanupSNI)

theorem once_iff (calls : List Call) (kind : Kind) :
    ((after calls).destroy.ledger kind).Once ↔ (∀ c ∈ calls, (c.move kind).Whole) ∧
      calls.Pairwise fun c d => ¬ ((c.move kind).Keeps ∧ d.move kind = .giveAll) := by
  have bounded : ∀ m ∈ calls.map fun c => c.move kind, m.Bounded :=
    List.forall_mem_map.mpr fun c _ => move_bounded c kind
  have empty : Ledger.Known {} := ⟨List.forall_mem_nil _, List.forall_mem_nil _⟩
  rw [destroy_ledger, Ledger.once_run_iff empty bounded, List.forall_mem_map, List.pairwise_map]
  exact and_iff_right fun _ below => absurd below (Nat.not_lt_zero _)

theorem move_giveAll (c : Call) (kind : Kind) : c.move kind = .giveAll ↔ c = .cleanupSNI := by
  cases c with
  | cleanupSNI => exact ⟨fun _ => rfl, fun _ => rfl⟩
  | addSSLCertificateToSNI host world isMutual =>
    obtain ⟨cert, key⟩ := world
    rcases cert with _ | ⟨_ | _, behind⟩ <;> rcases key with _ | _ | _ <;> cases kind <;>
      simp [Call.move]

theorem once_all_iff (calls : List Call) :
    (∀ kind, ((after calls).destroy.ledger kind).Once) ↔ SoundRun calls := by
  simp only [once_iff, move_giveAll, SoundRun, ← move_whole_iff, ← move_keeps_iff]
  constructor
  · intro all
    refine ⟨fun c member kind => (all kind).1 c member, ?_⟩
    rw [List.pairwise_iff_forall_sublist]
    rintro c d inside ⟨⟨kind, keeps⟩, cleanup⟩
    exact List.pairwise_iff_forall_sublist.mp (all kind).2 inside ⟨keeps, cleanup⟩
  · rintro ⟨whole, apart⟩ kind
    refine ⟨fun c member => whole c member kind, apart.imp fun apart => ?_⟩
    rintro ⟨keeps, cleanup⟩
    exact apart ⟨⟨kind, keeps⟩, cleanup⟩

theorem SoundRun.silent {calls before later : List Call} (sound : SoundRun calls)
    (reached : before ++ .cleanupSNI :: later <+: calls) (idle : ∀ c ∈ later, ¬ c.Adds)
    (cname : Str) : (after (before ++ .cleanupSNI :: later)).sniEntry cname = none := by
  have apart := List.pairwise_append.mp (sound.2.sublist reached.sublist)
  have idle : ∀ c ∈ before ++ .cleanupSNI :: later, ¬ c.Adds := by
    refine List.forall_mem_append.mpr ⟨fun c member adds => ?_, ?_⟩
    · exact apart.2.2 c member .cleanupSNI List.mem_cons_self ⟨adds, rfl⟩
    · exact List.forall_mem_cons.mpr ⟨id, idle⟩
  rw [CNetHandlerSocket.sniEntry, after_list idle]
  rfl

theorem certificates_clean_iff (calls : List Call) : Clean calls ↔ SoundRun calls := by
  constructor
  · intro clean
    refine (once_all_iff calls).mp fun kind => ?_
    cases kind with
    | cert => exact clean.certs
    | key => exact clean.keys
    | file => exact clean.files
  · intro sound
    have once := (once_all_iff calls).mpr sound
    exact
      { certs := once .cert
        keys := once .key
        files := once .file
        silent := fun _ _ reached idle => sound.silent reached idle }

/-- A file without a certificate stays open; an entry that is cleaned up is found again, and the
destructor frees its certificate and its key once more. -/
theorem certificates_unclean :
    let bad : World := { cert := some ⟨false, []⟩, key := none }
    let good : World := { cert := some ⟨true, []⟩, key := some true }
    (after [.addSSLCertificateToSNI ['h'] bad false]).destroy.files = 1 ∧
      (after [.addSSLCertificateToSNI ['h'] bad false]).destroy.closedFiles = [] ∧
      (after [.addSSLCertificateToSNI ['h'] good false, .cleanupSNI]).destroy.freedCerts = [0, 0] ∧
      ((after [.addSSLCertificateToSNI ['h'] good false, .cleanupSNI]).sniEntry ['h']).isSome ∧
      ¬ ∀ calls, Clean calls := by
  intro bad good
  refine ⟨rfl, rfl, rfl, rfl, fun all => ?_⟩
  have closed := (all [.addSSLCertificateToSNI ['h'] bad false]).files 0 Nat.one_pos
  exact absurd closed (by decide)

end Solusek.Certificates
