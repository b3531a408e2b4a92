import Solusek.Lib.Decimal
import Solusek.Model.Session

/-!
# Session IDs

An ID is the time and a counter printed side by side. With ten-digit times the time is the
first ten digits, and two sessions with the same counter are at least a period of 2^32 - 1
sessions apart, more than one second holds.
-/

namespace Solusek.Session

inductive Op where
  | start (now : Nat)
  | get (id : Str)
  | destroy (id : Str)
  deriving DecidableEq

def SessionTable.next (s : SessionTable) : Op → SessionTable
  | .start now => s.startSession now
  | .get _ => s
  | .destroy id => s.destroySession id

def SessionTable.run (ops : List Op) : SessionTable := ops.foldl SessionTable.next .new

/-- The clock reading at the start of each session, in order. -/
def startTimes (ops : List Op) : List Nat :=
  ops.filterMap fun op => match op with
    | .start now => some now
    | _ => none

/-- What is asked of the clock: ten digits, never back, and no more than 2^32 - 1 sessions
in a second. -/
structure Clock (times : List Nat) : Prop where
  tenDigits : ∀ t ∈ times, 10 ^ 9 ≤ t ∧ t < 10 ^ 10
  sorted : times.Pairwise (· ≤ ·)
  rate : ∀ t, times.count t ≤ 2 ^ 32 - 1

theorem Clock.of_append {times more : List Nat} (clock : Clock (times ++ more)) : Clock times where
  tenDigits := fun t member => clock.tenDigits t (List.mem_append_left _ member)
  sorted := (List.pairwise_append.mp clock.sorted).1
  rate := fun t => by
    have bound := clock.rate t
    rw [List.count_append] at bound
    omega

theorem run_snoc (ops : List Op) (op : Op) :
    SessionTable.run (ops ++ [op]) = (SessionTable.run ops).next op := by
  simp [SessionTable.run]

theorem startTimes_append (ops more : List Op) :
    startTimes (ops ++ more) = startTimes ops ++ startTimes more :=
  List.filterMap_append

/-! ### The number of a session -/

/-- The `k`-th session carries the time of its start and `k` modulo the counter's period. -/
structure Numbered (s : SessionTable) (times : List Nat) : Prop where
  length : s.heap.length = times.length
  bound : s.Incremental ≤ 4294967295
  period : s.Incremental % 4294967295 = s.heap.length % 4294967295
  ids : ∀ k t, times[k]? = some t → s.idOf k = some (printNat t ++ printNat (k % 4294967295))

theorem idOf_startSession_old {s : SessionTable} {now p : Nat} (old : p < s.heap.length) :
    (s.startSession now).idOf p = s.idOf p := by
  simp [SessionTable.idOf, SessionTable.startSession, List.getElem?_append_left old]

theorem startSession_numbered {s : SessionTable} {times : List Nat} (numbered : Numbered s times)
    (now : Nat) : Numbered (s.startSession now) (times ++ [now]) := by
  obtain ⟨length, bound, period, ids⟩ := numbered
  have drawn : (if s.Incremental ≥ 4294967295 then 0 else s.Incremental) =
      s.heap.length % 4294967295 := by
    split <;> omega
  refine ⟨?_, ?_, ?_, ?_⟩
  · simp [SessionTable.startSession, length]
  · simp only [SessionTable.startSession, CSession.new, drawn]
    omega
  · simp only [SessionTable.startSession, CSession.new, drawn, List.length_append,
      List.length_singleton]
    omega
  · intro k t read
    by_cases old : k < times.length
    · rw [idOf_startSession_old (length ▸ old)]
      exact ids k t (by rwa [List.getElem?_append_left old] at read)
    · rw [List.getElem?_append_right (Nat.le_of_not_lt old)] at read
      have last : k = s.heap.length := by
        have zero := List.getElem?_eq_some_iff.mp read
        obtain ⟨inside, _⟩ := zero
        simp only [List.length_singleton] at inside
        omega
      subst last
      have same : now = t := by simpa [length] using read
      simp [SessionTable.idOf, SessionTable.startSession, CSession.new, CSession.getID, drawn, same]

theorem run_numbered (ops : List Op) : Numbered (SessionTable.run ops) (startTimes ops) := by
  induction ops using List.reverseRecOn with
  | nil => constructor <;> simp [SessionTable.run, SessionTable.new, startTimes]
  | append_singleton ops op ih =>
    rw [run_snoc, startTimes_append]
    cases op with
    | start now => exact startSession_numbered ih now
    | get id => simpa [SessionTable.next, startTimes] using ih
    | destroy id =>
      have same : startTimes [Op.destroy id] = [] := rfl
      rw [same, List.append_nil]
      exact ⟨ih.length, ih.bound, ih.period, ih.ids⟩

/-! ### IDs are distinct -/

theorem count_of_equal_ends {times : List Nat} (sorted : times.Pairwise (· ≤ ·)) {i j t : Nat}
    (first : times[i]? = some t) (last : times[j]? = some t) (order : i ≤ j) :
    j - i + 1 ≤ times.count t := by
  have inside : j < times.length := (List.getElem?_eq_some_iff.mp last).1
  have block : (times.drop i).take (j - i + 1) = List.replicate (j - i + 1) t := by
    apply List.eq_replicate_iff.mpr
    constructor
    · simp; omega
    · intro x member
      obtain ⟨k, bound, rfl⟩ := List.mem_iff_getElem.mp member
      simp only [List.length_take, List.length_drop] at bound
      simp only [List.getElem_take, List.getElem_drop]
      have start : i < times.length := by omega
      have middle : i + k < times.length := by omega
      have low : times[i] ≤ times[i + k] := by
        rcases Nat.eq_zero_or_pos k with rfl | positive
        · exact Nat.le_refl _
        · exact List.pairwise_iff_getElem.mp sorted _ _ _ _ (by omega)
      have high : times[i + k] ≤ times[j] := by
        rcases Nat.eq_or_lt_of_le (show i + k ≤ j by omega) with same | less
        · simp [same]
        · exact List.pairwise_iff_getElem.mp sorted _ _ _ _ less
      have atFirst := (List.getElem?_eq_some_iff.mp first).2
      have atLast := (List.getElem?_eq_some_iff.mp last).2
      omega
  have part : ((times.drop i).take (j - i + 1)).Sublist times :=
    (List.take_sublist _ _).trans (List.drop_sublist _ _)
  have counted := part.count_le t
  rwa [block, List.count_replicate_self] at counted

theorem printNat_time {t : Nat} (tenDigits : 10 ^ 9 ≤ t ∧ t < 10 ^ 10) :
    (printNat t).length = 10 :=
  Decimal.length_toDigits tenDigits.1 tenDigits.2

theorem id_injective {t u m n : Nat} (first : 10 ^ 9 ≤ t ∧ t < 10 ^ 10)
    (second : 10 ^ 9 ≤ u ∧ u < 10 ^ 10)
    (same : printNat t ++ printNat m = printNat u ++ printNat n) : t = u ∧ m = n := by
  have widths : (printNat t).length = (printNat u).length := by
    rw [printNat_time first, printNat_time second]
  obtain ⟨times, counters⟩ := List.append_inj same widths
  exact ⟨Decimal.toDigits_injective times, Decimal.toDigits_injective counters⟩

theorem ids_nodup {s : SessionTable} {times : List Nat} (clock : Clock times)
    (numbered : Numbered s times) : (s.heap.map CSession.getID).Nodup := by
  apply List.nodup_iff_getElem?_ne_getElem?.mpr
  intro i j order inside same
  rw [List.length_map, numbered.length] at inside
  have before : i < times.length := by omega
  have first : times[i]? = some times[i] := List.getElem?_eq_getElem _
  have last : times[j]? = some times[j] := List.getElem?_eq_getElem _
  have idFirst := numbered.ids _ _ first
  have idLast := numbered.ids _ _ last
  rw [List.getElem?_map, List.getElem?_map] at same
  have equal := Option.some.inj (idFirst.symm.trans (same.trans idLast))
  obtain ⟨sameTime, sameCounter⟩ := id_injective (clock.tenDigits _ (List.mem_of_getElem? first))
    (clock.tenDigits _ (List.mem_of_getElem? last)) equal
  -- A full period lies between the two, all of it in one second.
  have many := count_of_equal_ends clock.sorted (sameTime ▸ first) last (Nat.le_of_lt order)
  have few := clock.rate times[j]
  omega

/-! ### Lookup and removal -/

/-- Distinct IDs, and a list of live sessions without repetition. -/
structure Sound (s : SessionTable) : Prop where
  ids : (s.heap.map CSession.getID).Nodup
  once : s.Sessions.Nodup
  made : ∀ p ∈ s.Sessions, p < s.heap.length

theorem idOf_some {s : SessionTable} {p : Nat} {id : Str} (read : s.idOf p = some id) :
    ∃ inside : p < (s.heap.map CSession.getID).length, (s.heap.map CSession.getID)[p] = id := by
  rw [SessionTable.idOf, ← List.getElem?_map] at read
  exact List.getElem?_eq_some_iff.mp read

theorem Sound.idOf_injective {s : SessionTable} (sound : Sound s) {p q : Nat} {id : Str}
    (first : s.idOf p = some id) (second : s.idOf q = some id) : p = q := by
  obtain ⟨insideP, readP⟩ := idOf_some first
  obtain ⟨insideQ, readQ⟩ := idOf_some second
  exact (sound.ids.getElem_inj_iff).mp (readP.trans readQ.symm)

theorem getSession_iff {s : SessionTable} (sound : Sound s) {id : Str} {p : Nat} :
    s.getSession id = some p ↔ p ∈ s.Sessions ∧ s.idOf p = some id := by
  constructor
  · intro found
    exact ⟨List.mem_of_find?_eq_some found, by simpa using List.find?_some found⟩
  · rintro ⟨live, read⟩
    cases found : s.getSession id with
    | none =>
      have absent := List.find?_eq_none.mp found p live
      simp [read] at absent
    | some q =>
      have other : s.idOf q = some id := by simpa using List.find?_some found
      rw [sound.idOf_injective other read]

theorem mem_destroySession {s : SessionTable} (sound : Sound s) {id : Str} {p : Nat} :
    p ∈ (s.destroySession id).Sessions ↔ p ∈ s.Sessions ∧ s.idOf p ≠ some id := by
  constructor
  · intro left
    refine ⟨List.mem_of_mem_eraseP left, ?_⟩
    intro read
    obtain ⟨q, before, after, _, hit, split, rest⟩ :=
      List.exists_of_eraseP (p := fun p => s.idOf p == some id) (List.mem_of_mem_eraseP left)
        (by simpa using read)
    have same : q = p := sound.idOf_injective (by simpa using hit) read
    subst same
    have once := sound.once
    rw [split] at once
    simp only [SessionTable.destroySession, rest] at left
    exact (List.nodup_middle.mp once).notMem left
  · rintro ⟨live, read⟩
    exact (List.mem_eraseP_of_neg (by simpa using read)).mpr live

theorem startSession_sound {s : SessionTable} (sound : Sound s) (now : Nat)
    (ids : ((s.startSession now).heap.map CSession.getID).Nodup) :
    Sound (s.startSession now) := by
  refine ⟨ids, ?_, ?_⟩
  · simp only [SessionTable.startSession]
    refine List.nodup_append.mpr ⟨sound.once, by simp, ?_⟩
    intro p live q new same
    have bound := sound.made p live
    have last : q = s.heap.length := by simpa using new
    omega
  · intro p member
    simp only [SessionTable.startSession, List.length_append, List.length_singleton] at member ⊢
    rcases List.mem_append.mp member with live | new
    · exact Nat.lt_succ_of_lt (sound.made p live)
    · have last : p = s.heap.length := by simpa using new
      omega

theorem destroySession_sound {s : SessionTable} (sound : Sound s) (id : Str) :
    Sound (s.destroySession id) :=
  ⟨sound.ids, sound.once.sublist List.eraseP_sublist,
    fun p live => sound.made p (List.mem_of_mem_eraseP live)⟩

theorem run_sound {ops : List Op} (clock : Clock (startTimes ops)) :
    Sound (SessionTable.run ops) := by
  induction ops using List.reverseRecOn with
  | nil => constructor <;> simp [SessionTable.run, SessionTable.new]
  | append_singleton ops op ih =>
    have ids := ids_nodup clock (run_numbered (ops ++ [op]))
    rw [startTimes_append] at clock
    have sound := ih clock.of_append
    rw [run_snoc] at ids ⊢
    cases op with
    | start now => exact startSession_sound sound now ids
    | get id => exact sound
    | destroy id => exact destroySession_sound sound id

/-! ### Whole runs -/

/-- What has become of session `a` once the calls `post` have followed its start. -/
theorem live_after {pre post : List Op} {now : Nat}
    (clock : Clock (startTimes (pre ++ .start now :: post))) :
    ∃ id, (SessionTable.run (pre ++ .start now :: post)).idOf (startTimes pre).length = some id ∧
      ((startTimes pre).length ∈ (SessionTable.run (pre ++ .start now :: post)).Sessions ↔
        .destroy id ∉ post) := by
  induction post using List.reverseRecOn with
  | nil =>
    have length := (run_numbered pre).length
    rw [run_snoc]
    simp [SessionTable.next, SessionTable.idOf, SessionTable.startSession, length]
  | append_singleton post op ih =>
    have shape : pre ++ .start now :: (post ++ [op]) = (pre ++ .start now :: post) ++ [op] := by
      simp
    rw [shape, startTimes_append] at clock
    obtain ⟨id, read, live⟩ := ih clock.of_append
    have sound := run_sound clock.of_append
    have made : (startTimes pre).length < (SessionTable.run (pre ++ .start now :: post)).heap.length := by
      rw [(run_numbered _).length]
      simp [startTimes]
    refine ⟨id, ?_, ?_⟩
    · rw [shape, run_snoc]
      cases op with
      | start later => exact (idOf_startSession_old made).trans read
      | get other => exact read
      | destroy other => exact read
    · rw [shape, run_snoc]
      cases op with
      | start later =>
        have different : (startTimes pre).length ≠
            (SessionTable.run (pre ++ .start now :: post)).heap.length := Nat.ne_of_lt made
        simpa [SessionTable.next, SessionTable.startSession, different] using live
      | get other => simpa [SessionTable.next] using live
      | destroy other =>
        rw [SessionTable.next, mem_destroySession sound, live, read]
        simp

theorem getSession_own {pre post : List Op} {now : Nat} {id : Str}
    (clock : Clock (startTimes (pre ++ .start now :: post)))
    (own : (SessionTable.run (pre ++ .start now :: post)).idOf (startTimes pre).length = some id) :
    (SessionTable.run (pre ++ .start now :: post)).getSession id =
      if .destroy id ∈ post then none else some (startTimes pre).length := by
  have sound := run_sound clock
  obtain ⟨other, read, live⟩ := live_after clock
  obtain rfl : other = id := Option.some.inj (read.symm.trans own)
  split
  · rename_i destroyed
    cases found : (SessionTable.run (pre ++ .start now :: post)).getSession other with
    | none => rfl
    | some q =>
      obtain ⟨member, same⟩ := (getSession_iff sound).mp found
      rw [sound.idOf_injective same read] at member
      exact absurd destroyed (live.mp member)
  · rename_i kept
    exact (getSession_iff sound).mpr ⟨live.mpr kept, read⟩

/-- Sessions over a whole run: IDs are pairwise distinct, a started session is found under its ID
until it is destroyed, no other ID is found, and `destroySession` removes one session only. -/
theorem session_run {ops : List Op} (clock : Clock (startTimes ops)) :
    ((SessionTable.run ops).heap.map CSession.getID).Nodup ∧
    (∀ pre now post, ops = pre ++ .start now :: post →
      ∃ id, (SessionTable.run ops).idOf (startTimes pre).length = some id ∧
        (SessionTable.run ops).getSession id =
          if .destroy id ∈ post then none else some (startTimes pre).length) ∧
    (∀ id, id ∉ (SessionTable.run ops).heap.map CSession.getID →
      (SessionTable.run ops).getSession id = none) ∧
    ∀ id p, p ∈ ((SessionTable.run ops).destroySession id).Sessions ↔
      p ∈ (SessionTable.run ops).Sessions ∧ (SessionTable.run ops).idOf p ≠ some id := by
  have sound := run_sound clock
  refine ⟨sound.ids, ?_, ?_, fun id p => mem_destroySession sound⟩
  · rintro pre now post rfl
    obtain ⟨id, read, _⟩ := live_after clock
    exact ⟨id, read, getSession_own clock read⟩
  · intro id absent
    cases found : (SessionTable.run ops).getSession id with
    | none => rfl
    | some p =>
      obtain ⟨inside, read⟩ := idOf_some ((getSession_iff sound).mp found).2
      exact absurd (read ▸ List.getElem_mem inside) absent

/-- Two sessions started in one second, the first one destroyed. -/
theorem session_run_two :
    ((SessionTable.run [.start 1700000000, .start 1700000000,
      .destroy "17000000000".toList]).heap.map CSession.getID).Nodup := by
  have clock : Clock (startTimes [.start 1700000000, .start 1700000000,
      .destroy "17000000000".toList]) :=
    ⟨by decide, by decide, fun t => (List.count_le_length).trans (by decide)⟩
  exact (session_run clock).1

end Solusek.Session
