import Solusek.Lib.Runs

/-!
# Threads that share one step

Each thread computes on its own, takes one step on the state that all share, and computes on.
Whatever turns they get, they end as if each had run alone from start to end, in the order of
their shared steps.
-/

namespace Solusek.Interleaving

open Transition

variable {ι α β ο σ : Type*}

structure Task (ι α β ο σ : Type*) where
  before : ι → α
  shared : α → σ → β × σ
  after : β → ο

inductive Phase (ι α β ο : Type*) where
  | fresh (i : ι)
  | ready (a : α)
  | stepped (b : β)
  | finished (o : ο)

structure State (ι α β ο σ : Type*) where
  shared : σ
  threads : List (Phase ι α β ο)

/-- A new thread, or the next step of thread `n`. -/
inductive Action (ι : Type*) where
  | spawn (i : ι)
  | advance (n : Nat)

/-- What the threads are given, in the order they are made. -/
def inputs (acts : List (Action ι)) : List ι :=
  acts.filterMap fun act => match act with
    | .spawn i => some i
    | .advance _ => none

theorem inputs_append (acts more : List (Action ι)) :
    inputs (acts ++ more) = inputs acts ++ inputs more :=
  List.filterMap_append

namespace Task

variable (task : Task ι α β ο σ)

def next (s : State ι α β ο σ) : Action ι → Option (State ι α β ο σ)
  | .spawn i => some { s with threads := s.threads ++ [.fresh i] }
  | .advance n =>
    match s.threads[n]? with
    | some (.fresh i) => some { s with threads := s.threads.set n (.ready (task.before i)) }
    | some (.ready a) =>
      some { shared := (task.shared a s.shared).2
             threads := s.threads.set n (.stepped (task.shared a s.shared).1) }
    | some (.stepped b) => some { s with threads := s.threads.set n (.finished (task.after b)) }
    | _ => none

def Step (s : State ι α β ο σ) (act : Action ι) (t : State ι α β ο σ) : Prop :=
  task.next s act = some t

/-- One thread on its own, up to its shared step. -/
def alone (i : ι) (s : σ) : β × σ := task.shared (task.before i) s

def serial : List ι → σ → List β × σ
  | [], s => ([], s)
  | i :: rest, s =>
    ((task.alone i s).1 :: (serial rest (task.alone i s).2).1, (serial rest (task.alone i s).2).2)

/-- The thread has taken its shared step, with `b`. -/
def Ends (thread : Option (Phase ι α β ο)) (b : β) : Prop :=
  thread = some (.stepped b) ∨ thread = some (.finished (task.after b))

/-- `order` lists the threads that have taken their shared step, each with what it was given. -/
structure Serialized (initial : σ) (given : List ι) (order : List (Nat × ι))
    (t : State ι α β ο σ) : Prop where
  once : (order.map Prod.fst).Nodup
  known : ∀ p ∈ order, given[p.1]? = some p.2
  length : t.threads.length = given.length
  shared : t.shared = (task.serial (order.map Prod.snd) initial).2
  waiting : ∀ (n : Nat) (i : ι), given[n]? = some i → n ∉ order.map Prod.fst →
    t.threads[n]? = some (.fresh i) ∨ t.threads[n]? = some (.ready (task.before i))
  answered : ∀ (k : Nat) (p : Nat × ι), order[k]? = some p →
    ∃ b, (task.serial (order.map Prod.snd) initial).1[k]? = some b ∧
      task.Ends t.threads[p.1]? b

theorem serial_append (is js : List ι) (s : σ) :
    task.serial (is ++ js) s =
      ((task.serial is s).1 ++ (task.serial js (task.serial is s).2).1,
        (task.serial js (task.serial is s).2).2) := by
  induction is generalizing s with
  | nil => rfl
  | cons i is ih => simp only [List.cons_append, serial, ih]

theorem serial_length (is : List ι) (s : σ) : (task.serial is s).1.length = is.length := by
  induction is generalizing s with
  | nil => rfl
  | cons i is ih => simp only [serial, List.length_cons, ih]

variable {task} {initial : σ} {given : List ι} {order : List (Nat × ι)} {t u : State ι α β ο σ}

theorem Serialized.inside (serialized : task.Serialized initial given order t) {p : Nat × ι}
    (member : p ∈ order) : p.1 < given.length :=
  (List.getElem?_eq_some_iff.mp (serialized.known p member)).1

theorem Serialized.spawn (serialized : task.Serialized initial given order t) (i : ι) :
    task.Serialized initial (given ++ [i]) order
      { t with threads := t.threads ++ [.fresh i] } := by
  have old {n : Nat} (below : n < given.length) :
      (t.threads ++ [.fresh i])[n]? = t.threads[n]? :=
    List.getElem?_append_left (serialized.length ▸ below)
  refine ⟨serialized.once, fun p member => ?_, ?_, serialized.shared, fun n j taken free => ?_,
    fun k p listed => ?_⟩
  · rw [List.getElem?_append_left (serialized.inside member)]
    exact serialized.known p member
  · simp only [List.length_append, List.length_singleton, serialized.length]
  · by_cases below : n < given.length
    · rw [List.getElem?_append_left below] at taken
      simp only [old below]
      exact serialized.waiting n j taken free
    · rw [List.getElem?_append_right (Nat.le_of_not_lt below)] at taken
      have bound := (List.getElem?_eq_some_iff.mp taken).1
      rw [List.length_singleton] at bound
      obtain rfl : n = given.length := by omega
      rw [Nat.sub_self] at taken
      obtain rfl : i = j := by simpa using taken
      left
      rw [List.getElem?_append_right serialized.length.le, serialized.length, Nat.sub_self]
      rfl
  · obtain ⟨b, read, ends⟩ := serialized.answered k p listed
    refine ⟨b, read, ?_⟩
    simp only [old (serialized.inside (List.mem_of_getElem? listed))]
    exact ends

/-- A thread that has not taken its shared step is not in the order, one that has is. -/
theorem Serialized.ordered_iff (serialized : task.Serialized initial given order t) {n : Nat} {i : ι}
    (taken : given[n]? = some i) :
    n ∈ order.map Prod.fst ↔
      t.threads[n]? ≠ some (.fresh i) ∧ t.threads[n]? ≠ some (.ready (task.before i)) := by
  constructor
  · intro member
    obtain ⟨p, inside, rfl⟩ := List.mem_map.mp member
    obtain ⟨k, listed⟩ := List.mem_iff_getElem?.mp inside
    obtain ⟨b, _, ends⟩ := serialized.answered k p listed
    rcases ends with last | last <;> rw [last] <;> exact ⟨nofun, nofun⟩
  · rintro ⟨first, second⟩
    by_contra free
    exact (serialized.waiting n i taken free).elim first second

/-- A step that leaves the shared state alone changes one thread. -/
theorem Serialized.own (serialized : task.Serialized initial given order t) {n : Nat}
    {phase : Phase ι α β ο}
    (waiting : ∀ i, given[n]? = some i → n ∉ order.map Prod.fst →
      phase = .fresh i ∨ phase = .ready (task.before i))
    (answered : ∀ b, task.Ends t.threads[n]? b → task.Ends (some phase) b) :
    task.Serialized initial given order { t with threads := t.threads.set n phase } := by
  refine ⟨serialized.once, serialized.known, ?_, serialized.shared, fun m i taken free => ?_,
    fun k p listed => ?_⟩
  · rw [List.length_set, serialized.length]
  · by_cases same : n = m
    · subst same
      have bound := (List.getElem?_eq_some_iff.mp taken).1
      have here : (t.threads.set n phase)[n]? = some phase :=
        List.getElem?_set_self (serialized.length ▸ bound)
      simp only [here, Option.some.injEq]
      exact waiting i taken free
    · simp only [List.getElem?_set_ne same]
      exact serialized.waiting m i taken free
  · obtain ⟨b, read, ends⟩ := serialized.answered k p listed
    refine ⟨b, read, ?_⟩
    by_cases same : n = p.1
    · subst same
      have bound := serialized.inside (List.mem_of_getElem? listed)
      have here : (t.threads.set p.1 phase)[p.1]? = some phase :=
        List.getElem?_set_self (serialized.length ▸ bound)
      simp only [here]
      exact answered b ends
    · simp only [List.getElem?_set_ne same]
      exact ends

/-- The shared step of a thread puts it at the end of the order. -/
theorem Serialized.shared_step (serialized : task.Serialized initial given order t) {n : Nat}
    {i : ι} (taken : given[n]? = some i)
    (ready : t.threads[n]? = some (.ready (task.before i))) :
    task.Serialized initial given (order ++ [(n, i)])
      { shared := (task.shared (task.before i) t.shared).2
        threads := t.threads.set n (.stepped (task.shared (task.before i) t.shared).1) } := by
  have free : n ∉ order.map Prod.fst := by
    rw [serialized.ordered_iff taken]
    exact fun apart => apart.2 ready
  have bound := (List.getElem?_eq_some_iff.mp taken).1
  have runs : task.serial ((order ++ [(n, i)]).map Prod.snd) initial =
      ((task.serial (order.map Prod.snd) initial).1 ++ [(task.alone i t.shared).1],
        (task.alone i t.shared).2) := by
    rw [List.map_append, serial_append, ← serialized.shared]
    rfl
  refine ⟨?_, ?_, ?_, ?_, fun m j given' other => ?_, fun k p listed => ?_⟩
  · rw [List.map_append, List.nodup_append]
    refine ⟨serialized.once, List.nodup_singleton n, fun m old m' new => ?_⟩
    obtain rfl : m' = n := List.mem_singleton.mp new
    rintro rfl
    exact free old
  · intro p member
    rcases List.mem_append.mp member with old | new
    · exact serialized.known p old
    · rw [List.mem_singleton.mp new]
      exact taken
  · rw [List.length_set, serialized.length]
  · rw [runs]
    rfl
  · rw [List.map_append, List.mem_append, not_or] at other
    have apart : n ≠ m := fun same => other.2 (List.mem_singleton.mpr same.symm)
    simp only [List.getElem?_set_ne apart]
    exact serialized.waiting m j given' other.1
  · rw [runs]
    have outputs : (task.serial (order.map Prod.snd) initial).1.length = order.length := by
      rw [serial_length, List.length_map]
    by_cases old : k < order.length
    · rw [List.getElem?_append_left old] at listed
      obtain ⟨b, read, ends⟩ := serialized.answered k p listed
      have apart : n ≠ p.1 := fun same =>
        free (same ▸ List.mem_map_of_mem (List.mem_of_getElem? listed))
      refine ⟨b, ?_, ?_⟩
      · rw [List.getElem?_append_left (outputs ▸ old)]
        exact read
      · simp only [List.getElem?_set_ne apart]
        exact ends
    · have last := (List.getElem?_eq_some_iff.mp listed).1
      rw [List.length_append, List.length_singleton] at last
      obtain rfl : k = order.length := by omega
      rw [List.getElem?_append_right le_rfl, Nat.sub_self] at listed
      obtain rfl : (n, i) = p := by simpa using listed
      refine ⟨(task.alone i t.shared).1, ?_, Or.inl ?_⟩
      · rw [List.getElem?_append_right outputs.le, outputs, Nat.sub_self]
        rfl
      · exact List.getElem?_set_self (serialized.length ▸ bound)

theorem Serialized.step (serialized : task.Serialized initial given order t) {act : Action ι}
    (taken : task.Step t act u) :
    ∃ order', order <+: order' ∧ task.Serialized initial (given ++ inputs [act]) order' u := by
  cases act with
  | spawn i =>
    obtain rfl := Option.some.inj taken
    exact ⟨order, List.prefix_rfl, serialized.spawn i⟩
  | advance n =>
    rw [show given ++ inputs [Action.advance n] = given from List.append_nil given]
    unfold Step next at taken
    dsimp only at taken
    cases here : t.threads[n]? with
    | none =>
      rw [here] at taken
      cases taken
    | some phase =>
      have bound := (List.getElem?_eq_some_iff.mp here).1
      rw [serialized.length] at bound
      have listed : given[n]? = some given[n] := List.getElem?_eq_getElem bound
      rw [here] at taken
      cases phase with
      | fresh i =>
        obtain rfl := Option.some.inj taken
        refine ⟨order, List.prefix_rfl, serialized.own (fun j given' free => ?_) ?_⟩
        · rcases serialized.waiting n j given' free with first | second
          · rw [here] at first
            obtain rfl : i = j := by simpa using first
            exact Or.inr rfl
          · rw [here] at second
            cases second
        · rintro b (last | last) <;> rw [here] at last <;> cases last
      | ready a =>
        obtain rfl := Option.some.inj taken
        have free : n ∉ order.map Prod.fst := by
          intro member
          obtain ⟨p, inside, rfl⟩ := List.mem_map.mp member
          obtain ⟨k, position⟩ := List.mem_iff_getElem?.mp inside
          obtain ⟨b, _, last | last⟩ := serialized.answered k p position <;>
            rw [here] at last <;> cases last
        have own : a = task.before given[n] := by
          rcases serialized.waiting n _ listed free with first | second
          · rw [here] at first
            cases first
          · rw [here] at second
            simpa using second
        subst own
        exact ⟨_, List.prefix_append _ _, serialized.shared_step listed here⟩
      | stepped b =>
        obtain rfl := Option.some.inj taken
        refine ⟨order, List.prefix_rfl, serialized.own (fun j given' free => ?_) ?_⟩
        · rcases serialized.waiting n j given' free with first | second
          · rw [here] at first
            cases first
          · rw [here] at second
            cases second
        · rintro b' (last | last)
          · rw [here] at last
            obtain rfl : b = b' := by simpa using last
            exact Or.inr rfl
          · rw [here] at last
            cases last
      | finished o => cases taken

/-- What comes later is put behind what has happened. -/
theorem Serialized.runs (serialized : task.Serialized initial given order t)
    {acts : List (Action ι)} (run : Runs task.Step t acts u) :
    ∃ order', order <+: order' ∧ task.Serialized initial (given ++ inputs acts) order' u := by
  induction run with
  | nil => exact ⟨order, List.prefix_rfl, by simpa [inputs] using serialized⟩
  | snoc _ last ih =>
    obtain ⟨middle, first, before⟩ := ih
    obtain ⟨order', second, after⟩ := before.step last
    refine ⟨order', first.trans second, ?_⟩
    rw [inputs_append, ← List.append_assoc]
    exact after

theorem serialized_start {task : Task ι α β ο σ} (initial : σ) :
    task.Serialized initial [] [] { shared := initial, threads := [] } where
  once := List.nodup_nil
  known p member := absurd member List.not_mem_nil
  length := rfl
  shared := rfl
  waiting n i taken := by simp at taken
  answered k p listed := by simp at listed

theorem serial_getElem? (task : Task ι α β ο σ) {is : List ι} {k : Nat} {i : ι}
    (listed : is[k]? = some i) (s : σ) :
    (task.serial is s).1[k]? = some (task.alone i (task.serial (is.take k) s).2).1 := by
  induction is generalizing k s with
  | nil => cases listed
  | cons j is ih =>
    cases k with
    | zero =>
      obtain rfl : j = i := by simpa using listed
      rfl
    | succ k =>
      rw [List.getElem?_cons_succ] at listed
      simp only [serial, List.getElem?_cons_succ, List.take_succ_cons]
      exact ih listed _

/-- A thread in the order has taken its step behind those before it. -/
theorem Serialized.ends (serialized : task.Serialized initial given order t) {k : Nat}
    {p : Nat × ι} (placed : order[k]? = some p) : task.Ends t.threads[p.1]?
      (task.alone p.2 (task.serial ((order.map Prod.snd).take k) initial).2).1 := by
  obtain ⟨b, read, ends⟩ := serialized.answered k p placed
  have listed : (order.map Prod.snd)[k]? = some p.2 := by
    rw [List.getElem?_map, placed]
    rfl
  rw [task.serial_getElem? listed initial] at read
  obtain rfl := Option.some.inj read
  exact ends

end Task

/-! ### Properties of one thread -/

/-- What holds of each thread as it is made for such an input, read, stepped and finished. -/
structure Task.Keeps (task : Task ι α β ο σ) (given : ι → Prop) (P : Phase ι α β ο → Prop) :
    Prop where
  fresh : ∀ i, given i → P (.fresh i)
  ready : ∀ i, P (.fresh i) → P (.ready (task.before i))
  stepped : ∀ a s, P (.ready a) → P (.stepped (task.shared a s).1)
  finished : ∀ b, P (.stepped b) → P (.finished (task.after b))

theorem Task.Keeps.step {task : Task ι α β ο σ} {given : ι → Prop} {P : Phase ι α β ο → Prop}
    (keeps : task.Keeps given P) {s t : State ι α β ο σ} {act : Action ι}
    (before : ∀ thread ∈ s.threads, P thread) (known : ∀ i ∈ inputs [act], given i)
    (taken : task.Step s act t) : ∀ thread ∈ t.threads, P thread := by
  have changed {n : Nat} {phase : Phase ι α β ο} (holds : P phase) :
      ∀ thread ∈ s.threads.set n phase, P thread := fun thread member =>
    (List.mem_or_eq_of_mem_set member).elim (before thread) fun same => same ▸ holds
  cases act with
  | spawn i =>
    obtain rfl := Option.some.inj taken
    intro thread member
    rcases List.mem_append.mp member with old | new
    · exact before thread old
    · rw [List.mem_singleton.mp new]
      exact keeps.fresh i (known i List.mem_cons_self)
  | advance n =>
    unfold Task.Step Task.next at taken
    dsimp only at taken
    cases here : s.threads[n]? with
    | none =>
      rw [here] at taken
      cases taken
    | some phase =>
      have holds := before _ (List.mem_of_getElem? here)
      rw [here] at taken
      cases phase with
      | fresh i =>
        obtain rfl := Option.some.inj taken
        exact changed (keeps.ready i holds)
      | ready a =>
        obtain rfl := Option.some.inj taken
        exact changed (keeps.stepped a _ holds)
      | stepped b =>
        obtain rfl := Option.some.inj taken
        exact changed (keeps.finished b holds)
      | finished o => cases taken

theorem Task.Keeps.runs {task : Task ι α β ο σ} {given : ι → Prop} {P : Phase ι α β ο → Prop}
    (keeps : task.Keeps given P) {initial : σ} {acts : List (Action ι)} {t : State ι α β ο σ}
    (run : Runs task.Step { shared := initial, threads := [] } acts t)
    (known : ∀ i ∈ inputs acts, given i) : ∀ thread ∈ t.threads, P thread := by
  induction run with
  | nil => exact fun thread member => absurd member List.not_mem_nil
  | snoc _ last ih =>
    rw [inputs_append] at known
    exact keeps.step (ih fun i member => known i (List.mem_append_left _ member))
      (fun i member => known i (List.mem_append_right _ member)) last

end Solusek.Interleaving
