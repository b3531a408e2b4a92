import Solusek.Lib.Runs
import Solusek.Model.SpinLocks

/-!
# Mutual exclusion

Reading a flag and setting it are two steps, and `open()` calls `push_back` after it has cleared
`Hold`. The locks work as long as no thread sets a flag that another has set since it was read,
and no `open()` gets to its `push_back`.
-/

namespace Solusek.SpinLocks

open Transition

/-- No two threads are between the step that sets a flag and the step that clears it. -/
def Exclusive (s : State) : Prop := ∀ f, ∀ t ∈ s.holders f, ∀ u ∈ s.holders f, t = u

/-- A thread that accesses `Instances` has set `Hold` and not cleared it. -/
def Held (s : State) (a : Action) : Prop :=
  match a.move with
  | .access _ | .push => a.t ∈ s.holders .Hold
  | _ => True

/-- A thread sets a flag only while it is still clear, and `push_back` is not reached. -/
def Orderly (s : State) (a : Action) : Prop :=
  match a.move with
  | .set => ∀ c, s.pc a.t = .setting c → s.flag c.flag = false
  | .push => False
  | _ => True

namespace PC

/-- The flags that a thread there has set. -/
def Holds : PC → Flag → Prop
  | inside c _, f => f = c.flag ∨ f = .Hold
  | calling _, f => f = .Lock
  | clearing c _, f => f = c.flag
  | _, _ => False

/-- The flags that a thread there has not set. -/
def Lacks : PC → Flag → Prop
  | setting c, f => f = c.flag
  | connecting, f | pushing _, f => f = .Hold
  | _, _ => False

end PC

/-- A flag is set while one thread holds it, and clear while none does. -/
structure Locked (s : State) : Prop where
  single : ∀ f, s.flag f = false ∧ s.holders f = [] ∨ s.flag f = true ∧ ∃ t, s.holders f = [t]
  holds : ∀ t f, (s.pc t).Holds f → t ∈ s.holders f
  lacks : ∀ t f, (s.pc t).Lacks f → t ∉ s.holders f

theorem start_locked : Locked State.start := by
  refine ⟨fun f => Or.inl ⟨rfl, rfl⟩, fun t f holds => ?_, fun t f _ => List.not_mem_nil⟩
  unfold State.start at holds
  dsimp only at holds
  split at holds
  · exact holds.elim
  · exact holds.elim

theorem Locked.exclusive {s : State} (locked : Locked s) : Exclusive s := by
  intro f t first u second
  rcases locked.single f with ⟨_, free⟩ | ⟨_, v, taken⟩
  · rw [free] at first
    exact absurd first List.not_mem_nil
  · rw [taken] at first second
    rw [List.mem_singleton.mp first, List.mem_singleton.mp second]

/-! ### One step -/

section Step

variable {s : State} {t : Nat}

theorem Locked.goto (locked : Locked s) {pc : PC} (holds : ∀ f, pc.Holds f → t ∈ s.holders f)
    (lacks : ∀ f, pc.Lacks f → t ∉ s.holders f) : Locked (s.goto t pc) := by
  refine ⟨locked.single, fun u f here => ?_, fun u f here => ?_⟩
  · by_cases same : u = t
    · subst same
      exact holds f (by simpa [State.goto] using here)
    · exact locked.holds u f (by simpa [State.goto, same] using here)
  · by_cases same : u = t
    · subst same
      exact lacks f (by simpa [State.goto] using here)
    · exact locked.lacks u f (by simpa [State.goto, same] using here)

theorem Locked.instances (locked : Locked s) (Instances : List Nat) :
    Locked { s with Instances } := ⟨locked.single, locked.holds, locked.lacks⟩

theorem enter_holds {c : Call} {f : Flag} (holds : c.enter.Holds f) : f = c.flag := by
  cases c <;> simpa [Call.enter, PC.Holds, Call.flag] using holds

theorem enter_lacks (c : Call) (f : Flag) : ¬ c.enter.Lacks f := by
  cases c <;> exact id

theorem leave_holds (c : Call) (found : Bool) (f : Flag) : ¬ (c.leave found).Holds f := by
  rcases c with _ | _ | _ | _ | left
  · cases found <;> exact id
  all_goals exact id

theorem leave_lacks {c : Call} {found : Bool} {f : Flag} (lacks : (c.leave found).Lacks f) :
    f = c.flag := by
  rcases c with _ | _ | _ | _ | left
  · cases found
    · exact lacks
    · exact lacks.elim
  all_goals exact lacks.elim

theorem Locked.set (locked : Locked s) {c : Call} (clear : s.flag c.flag = false) :
    Locked ((s.setFlag t c.flag).goto t c.enter) := by
  have free : s.holders c.flag = [] := by
    rcases locked.single c.flag with ⟨_, free⟩ | ⟨set, _⟩
    · exact free
    · rw [clear] at set
      cases set
  have other u f (apart : u ≠ t) (held : u ∈ (s.setFlag t c.flag).holders f) :
      u ∈ s.holders f := by
    by_cases same : f = c.flag
    · subst same
      simpa [State.setFlag, apart] using held
    · simpa [State.setFlag, same] using held
  refine ⟨fun f => ?_, fun u f holds => ?_, fun u f lacks => ?_⟩
  · by_cases same : f = c.flag
    · subst same
      exact Or.inr ⟨by simp [State.goto, State.setFlag],
        t, by simp [State.goto, State.setFlag, free]⟩
    · simpa [State.goto, State.setFlag, same] using locked.single f
  · by_cases own : u = t
    · subst own
      have same : f = c.flag := enter_holds (by simpa [State.goto] using holds)
      subst same
      simp [State.goto, State.setFlag]
    · have before := locked.holds u f (by simpa [State.goto, State.setFlag, own] using holds)
      by_cases same : f = c.flag
      · subst same
        rw [free] at before
        exact absurd before List.not_mem_nil
      · simpa [State.goto, State.setFlag, same] using before
  · by_cases own : u = t
    · subst own
      exact absurd (by simpa [State.goto] using lacks) (enter_lacks c f)
    · have before := locked.lacks u f (by simpa [State.goto, State.setFlag, own] using lacks)
      exact fun held => before (other u f own held)

theorem Locked.clear (locked : Locked s) {c : Call} {found : Bool}
    (here : s.pc t = .clearing c found) :
    Locked ((s.clearFlag t c.flag).goto t (c.leave found)) := by
  have own : s.holders c.flag = [t] := by
    have held : t ∈ s.holders c.flag := locked.holds t c.flag (by rw [here]; exact rfl)
    rcases locked.single c.flag with ⟨_, free⟩ | ⟨_, u, taken⟩
    · rw [free] at held
      exact absurd held List.not_mem_nil
    · rw [taken] at held ⊢
      rw [List.mem_singleton.mp held]
  have left : (s.clearFlag t c.flag).holders c.flag = [] := by simp [State.clearFlag, own]
  refine ⟨fun f => ?_, fun u f holds => ?_, fun u f lacks => ?_⟩
  · by_cases same : f = c.flag
    · subst same
      exact Or.inl ⟨by simp [State.goto, State.clearFlag], left⟩
    · simpa [State.goto, State.clearFlag, same] using locked.single f
  · by_cases same_thread : u = t
    · subst same_thread
      exact absurd (by simpa [State.goto] using holds) (leave_holds c found f)
    · have before := locked.holds u f
        (by simpa [State.goto, State.clearFlag, same_thread] using holds)
      by_cases same : f = c.flag
      · subst same
        rw [own] at before
        exact absurd (List.mem_singleton.mp before) same_thread
      · simpa [State.goto, State.clearFlag, same] using before
  · by_cases same : f = c.flag
    · subst same
      exact fun held => absurd (left ▸ held) List.not_mem_nil
    · by_cases same_thread : u = t
      · subst same_thread
        exact absurd (leave_lacks (by simpa [State.goto] using lacks)) same
      · have before := locked.lacks u f
          (by simpa [State.goto, State.clearFlag, same_thread] using lacks)
        simpa [State.goto, State.clearFlag, same] using before

theorem access_stays (c : Call) (Instances : List Nat) (answer : Bool) (a : Access) :
    (∀ f, (c.access Instances answer a).1.Holds f → (PC.inside c a).Holds f) ∧
    ∀ f, ¬ (c.access Instances answer a).1.Lacks f := by
  have stays : (∃ b, (c.access Instances answer a).1 = .inside c b) ∨
      ∃ found, (c.access Instances answer a).1 = .clearing c found := by
    cases a <;> simp only [Call.access] <;> (try split_ifs) <;> simp
  rcases stays with ⟨b, inside⟩ | ⟨found, clearing⟩
  · rw [inside]
    exact ⟨fun f holds => holds, fun f => id⟩
  · rw [clearing]
    exact ⟨fun f holds => Or.inl holds, fun f => id⟩

theorem step_locked {a : Action} {s' : State} (locked : Locked s)
    (taken : Guarded Orderly State.Step s a s') : Locked s' := by
  obtain ⟨orderly, step⟩ := taken
  unfold State.Step State.next at step
  split at step
  case h_4 c here move =>
    obtain rfl := Option.some.inj step
    split
    · exact locked
    · rename_i clear
      refine locked.goto (fun f holds => holds.elim) fun f lacks held => ?_
      rcases locked.single c.flag with ⟨_, free⟩ | ⟨set, _⟩
      · rw [show f = c.flag from lacks, free] at held
        exact absurd held List.not_mem_nil
      · exact clear set
  case h_5 c here move =>
    obtain rfl := Option.some.inj step
    unfold Orderly at orderly
    rw [move] at orderly
    exact locked.set (orderly c here)
  case h_6 c point answer here move =>
    obtain rfl := Option.some.inj step
    obtain ⟨holds, lacks⟩ := access_stays c s.Instances answer point
    refine (locked.goto (fun f later => ?_) fun f later => ?_).instances _
    · exact locked.holds a.t f (by rw [here]; exact holds f later)
    · exact absurd later (lacks f)
  case h_7 left throws here move =>
    obtain rfl := Option.some.inj step
    refine locked.goto (fun f later => ?_) fun f later => ?_
    · cases throws with
      | true => exact later.elim
      | false => exact locked.holds a.t f (by rw [here]; exact later)
    · cases throws <;> exact later.elim
  case h_8 c found here move =>
    obtain rfl := Option.some.inj step
    exact locked.clear here
  case h_9 di here move =>
    obtain rfl := Option.some.inj step
    refine locked.goto (fun f later => later.elim) fun f later => ?_
    exact locked.lacks a.t f (by rw [here]; exact later)
  case h_11 di here move =>
    unfold Orderly at orderly
    rw [move] at orderly
    exact orderly.elim
  case h_12 => cases step
  all_goals
    obtain rfl := Option.some.inj step
    exact locked.goto (fun f later => later.elim) fun f later => later.elim

theorem Locked.held (locked : Locked s) {a : Action} {s' : State} (step : State.Step s a s')
    (orderly : Orderly s a) : Held s a := by
  unfold Held
  unfold Orderly at orderly
  cases move : a.move with
  | access answer =>
    unfold State.Step State.next at step
    rw [move] at step
    cases here : s.pc a.t with
    | inside c point => exact locked.holds a.t .Hold (by rw [here]; exact Or.inr rfl)
    | _ =>
      rw [here] at step
      cases step
  | push =>
    rw [move] at orderly
    exact orderly.elim
  | _ => trivial

/-- A step that is not orderly breaks the lock at once. -/
theorem Locked.broken (locked : Locked s) {a : Action} {s' : State} (step : State.Step s a s')
    (disorderly : ¬ Orderly s a) : ¬ (Held s a ∧ Exclusive s') := by
  unfold Orderly at disorderly
  unfold State.Step State.next at step
  rintro ⟨held, exclusive⟩
  unfold Held at held
  cases move : a.move with
  | set =>
    rw [move] at step disorderly
    push Not at disorderly
    obtain ⟨c, here, set⟩ := disorderly
    rw [here] at step
    obtain rfl := Option.some.inj step
    have absent : a.t ∉ s.holders c.flag := locked.lacks a.t c.flag (by rw [here]; exact rfl)
    rcases locked.single c.flag with ⟨clear, _⟩ | ⟨_, u, taken⟩
    · exact set clear
    · have both : ((s.setFlag a.t c.flag).goto a.t c.enter).holders c.flag = [a.t, u] := by
        simp [State.goto, State.setFlag, taken]
      have same : a.t = u := exclusive c.flag a.t (by simp [both]) u (by simp [both])
      rw [taken, same] at absent
      exact absent (List.mem_singleton_self u)
  | push =>
    rw [move] at step held
    cases here : s.pc a.t with
    | pushing di => exact locked.lacks a.t .Hold (by rw [here]; exact rfl) held
    | _ =>
      rw [here] at step
      cases step
  | _ =>
    rw [move] at disorderly
    exact disorderly trivial

end Step

/-! ### Runs -/

/-- In a run of orderly steps no two threads are between setting and clearing one flag, and
`Instances` is accessed only under `Hold`. The first step that is not orderly breaks this. -/
theorem locks_exclusive {as : List Action} {s : State}
    (run : Runs (Guarded Orderly State.Step) State.start as s) :
    Exclusive s ∧
    (∀ a s', State.Step s a s' → Orderly s a → Held s a) ∧
    ∀ a s', State.Step s a s' → ¬ Orderly s a → ¬ (Held s a ∧ Exclusive s') := by
  have locked : Locked s := run.invariant start_locked step_locked
  exact ⟨locked.exclusive, fun a s' => locked.held, fun a s' => locked.broken⟩

/-- Behind the reaper's pass, a thread in `closeAll` that waited for it has set `Hold`, and the
reaper waits. -/
theorem locks_exclusive_contended :
    ∃ s, s.pc 0 = .testing .poolThread ∧ s.pc 1 = .inside .closeAll .nonempty ∧
      s.holders .Hold = [1] ∧ Exclusive s := by
  have tested : Guarded Orderly State.Step State.start ⟨0, .test⟩ _ := ⟨trivial, rfl⟩
  have set := Runs.snoc (Runs.single tested)
    (show Guarded Orderly State.Step _ ⟨0, .set⟩ _ from ⟨fun c _ => rfl, rfl⟩)
  have called := Runs.snoc set
    (show Guarded Orderly State.Step _ ⟨1, .closeAll⟩ _ from ⟨trivial, rfl⟩)
  have waits := Runs.snoc called
    (show Guarded Orderly State.Step _ ⟨1, .test⟩ _ from ⟨trivial, rfl⟩)
  have began := Runs.snoc waits
    (show Guarded Orderly State.Step _ ⟨0, .access true⟩ _ from ⟨trivial, rfl⟩)
  have ended := Runs.snoc began
    (show Guarded Orderly State.Step _ ⟨0, .access true⟩ _ from ⟨trivial, rfl⟩)
  have cleared := Runs.snoc ended
    (show Guarded Orderly State.Step _ ⟨0, .clear⟩ _ from ⟨trivial, rfl⟩)
  have free := Runs.snoc cleared
    (show Guarded Orderly State.Step _ ⟨1, .test⟩ _ from ⟨trivial, rfl⟩)
  have clear (c : Call) (setting : PC.setting .closeAll = .setting c) : c = .closeAll :=
    (PC.setting.inj setting).symm
  have taken := Runs.snoc free (show Guarded Orderly State.Step _ ⟨1, .set⟩ _ from
    ⟨fun c setting => by rw [clear c setting]; rfl, rfl⟩)
  have back := Runs.snoc taken
    (show Guarded Orderly State.Step _ ⟨0, .test⟩ _ from ⟨trivial, rfl⟩)
  exact ⟨_, rfl, rfl, rfl, (locks_exclusive back).1⟩

/-- The reaper and a thread in `closeAll` both read that `Hold` is clear, and both set it. -/
theorem locks_shared : ¬ ∀ (as : List Action) (s : State), Runs State.Step State.start as s →
    Exclusive s ∧ ∀ a s', State.Step s a s' → Held s a := by
  intro claim
  have tested : State.Step State.start ⟨0, .test⟩ _ := rfl
  have called := Runs.snoc (Runs.single tested) (show State.Step _ ⟨1, .closeAll⟩ _ from rfl)
  have both := Runs.snoc called (show State.Step _ ⟨1, .test⟩ _ from rfl)
  have first := Runs.snoc both (show State.Step _ ⟨0, .set⟩ _ from rfl)
  have second := Runs.snoc first (show State.Step _ ⟨1, .set⟩ _ from rfl)
  have same := (claim _ _ second).1 .Hold 0 (by decide) 1 (by decide)
  exact absurd same (by decide)

end Solusek.SpinLocks
