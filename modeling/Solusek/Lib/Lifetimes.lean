import Mathlib

/-!
# The lives of objects in a log

A log says which objects are made, used and released, in this order. An object is made once, and
used and released only while it is alive. The books say who has each object that is alive; what
nobody has any more, and nobody has released, is lost.
-/

namespace Solusek.Lifetimes

variable {α β ι : Type*}

/-! ### Logs -/

/-- Each entry goes with what stands before it. -/
def Each (P : List β → β → Prop) (before : List β) : List β → Prop
  | [] => True
  | e :: rest => P before e ∧ Each P (before ++ [e]) rest

@[simp] theorem each_nil (P : List β → β → Prop) (before : List β) : Each P before [] := trivial

@[simp] theorem each_cons (P : List β → β → Prop) (before : List β) (e : β) (rest : List β) :
    Each P before (e :: rest) ↔ P before e ∧ Each P (before ++ [e]) rest := Iff.rfl

theorem each_append (P : List β → β → Prop) (before l m : List β) :
    Each P before (l ++ m) ↔ Each P before l ∧ Each P (before ++ l) m := by
  induction l generalizing before with
  | nil => simp
  | cons e l ih => simp [ih, and_assoc]

inductive Event (α : Type*) where
  | made (x : α)
  | used (x : α)
  | released (x : α)
  deriving DecidableEq, Repr

theorem each_mono {P Q : List β → β → Prop} {before l : List β}
    (weaker : ∀ pre e, P pre e → Q pre e)
    (all : Each P before l) : Each Q before l := by
  induction l generalizing before with
  | nil => trivial
  | cons e l ih => exact ⟨weaker _ _ all.1, ih all.2⟩

open Event

def Live (log : List (Event α)) (x : α) : Prop := made x ∈ log ∧ released x ∉ log

/-- Nothing is made twice, or released that is not alive. -/
def Tidy (log : List (Event α)) : Event α → Prop
  | made x => made x ∉ log
  | used _ => True
  | released x => Live log x

/-- What is used is alive. -/
def Safe (log : List (Event α)) : Event α → Prop
  | made _ => True
  | used x => Live log x
  | released _ => True

@[simp] theorem live_uses (log : List (Event α)) (l : List α) (x : α) :
    Live (log ++ l.map used) x ↔ Live log x := by simp [Live]

@[simp] theorem live_released (log : List (Event α)) (x y : α) :
    Live (log ++ [released y]) x ↔ Live log x ∧ x ≠ y := by simp [Live, and_assoc]

theorem Live.append {log more : List (Event α)} {x : α} (live : Live log x)
    (kept : released x ∉ more) : Live (log ++ more) x := by
  refine ⟨List.mem_append_left _ live.1, fun member => ?_⟩
  exact (List.mem_append.mp member).elim live.2 kept

/-! ### Tidy logs -/

theorem released_made {log : List (Event α)} (tidy : Each Tidy [] log) {x : α}
    (gone : released x ∈ log) : made x ∈ log := by
  obtain ⟨pre, post, rfl⟩ := List.append_of_mem gone
  have here := ((each_append _ _ _ _).mp tidy).2
  exact List.mem_append_left _ here.1.1

theorem live_made {log : List (Event α)} (tidy : Each Tidy [] log) {y : α} (fresh : made y ∉ log)
    (x : α) : Live (log ++ [made y]) x ↔ Live log x ∨ x = y := by
  constructor
  · rintro ⟨made', kept⟩
    rcases List.mem_append.mp made' with old | new
    · exact Or.inl ⟨old, fun member => kept (List.mem_append_left _ member)⟩
    · simp only [List.mem_singleton, made.injEq] at new
      exact Or.inr new
  · rintro (live | rfl)
    · exact live.append (by simp)
    · refine ⟨by simp, fun member => ?_⟩
      have old : released x ∈ log := by simpa using member
      exact fresh (released_made tidy old)

section
variable [DecidableEq α]

theorem released_once {log : List (Event α)} (tidy : Each Tidy [] log) (x : α) :
    log.count (released x) ≤ 1 := by
  induction log using List.reverseRecOn with
  | nil => simp
  | append_singleton log e ih =>
    obtain ⟨before, last, _⟩ := (each_append _ _ _ _).mp tidy
    rw [List.count_append, List.count_singleton]
    by_cases same : e = released x
    · subst same
      have none : log.count (released x) = 0 := List.count_eq_zero.mpr last.2
      simp [none]
    · simpa [same] using ih before

/-- An object that has been made is alive, or has been released once. -/
theorem count_released {log : List (Event α)} (tidy : Each Tidy [] log) {x : α}
    (there : made x ∈ log) : log.count (released x) = 1 ↔ ¬ Live log x := by
  have once := released_once tidy x
  have positive : 0 < log.count (released x) ↔ released x ∈ log := List.count_pos_iff
  rw [Live, not_and_not_right]
  constructor
  · intro one _
    apply positive.mp
    omega
  · intro gone
    have counted := positive.mpr (gone there)
    omega

end

/-! ### Parts of a log -/

/-- Nothing is made twice, and what is used or released is alive. -/
def Fine (log : List (Event α)) (e : Event α) : Prop := Tidy log e ∧ Safe log e

def Event.object : Event α → α
  | made x | used x | released x => x

theorem each_prefix {P : List β → β → Prop} {before l m : List β} (all : Each P before (l ++ m)) :
    Each P before l := ((each_append P before l m).mp all).1

theorem each_fine_uses (log : List (Event α)) (l : List α) :
    Each Fine log (l.map used) ↔ ∀ x ∈ l, Live log x := by
  induction l generalizing log with
  | nil => simp
  | cons y l ih =>
    have same (x : α) : Live (log ++ [used y]) x ↔ Live log x := live_uses log [y] x
    simp [ih, same, Fine, Tidy, Safe]

theorem each_fine_makes {log : List (Event α)} {l : List α} (distinct : l.Nodup)
    (fresh : ∀ x ∈ l, made x ∉ log) : Each Fine log (l.map made) := by
  induction l generalizing log with
  | nil => trivial
  | cons y l ih =>
    obtain ⟨apart, distinct⟩ := List.nodup_cons.mp distinct
    refine ⟨⟨fresh y List.mem_cons_self, trivial⟩, ih distinct fun x member => ?_⟩
    have other : x ≠ y := fun same => apart (same ▸ member)
    simpa [other] using fresh x (List.mem_cons_of_mem y member)

/-- A list of releases goes well if everything in it is alive and in it once. -/
theorem each_fine_releases (log : List (Event α)) (l : List α) :
    Each Fine log (l.map released) ↔ (∀ x ∈ l, Live log x) ∧ l.Nodup := by
  induction l generalizing log with
  | nil => simp
  | cons y l ih =>
    simp only [List.map_cons, each_cons, ih, live_released, List.forall_mem_cons, List.nodup_cons]
    have first : Fine log (released y) ↔ Live log y := and_iff_left trivial
    rw [first, forall₂_and]
    rw [show (∀ x ∈ l, x ≠ y) ↔ y ∉ l from List.forall_mem_ne']
    tauto

section
variable [DecidableEq ι] (owner : α → ι)

def part (i : ι) (log : List (Event α)) : List (Event α) :=
  log.filter fun e => decide (owner e.object = i)

variable {owner}

theorem mem_part {i : ι} {log : List (Event α)} {e : Event α} :
    e ∈ part owner i log ↔ e ∈ log ∧ owner e.object = i := by
  simp [part]

@[simp] theorem part_nil (i : ι) : part owner i ([] : List (Event α)) = [] := rfl

@[simp] theorem part_append (i : ι) (l m : List (Event α)) :
    part owner i (l ++ m) = part owner i l ++ part owner i m := List.filter_append l m

theorem part_flatMap {β : Type*} (i : ι) (l : List β) (f : β → List (Event α)) :
    part owner i (l.flatMap f) = l.flatMap fun x => part owner i (f x) := by
  simp [part, List.filter_flatMap]

theorem part_cons (i : ι) (e : Event α) (l : List (Event α)) :
    part owner i (e :: l) = if owner e.object = i then e :: part owner i l else part owner i l := by
  by_cases own : owner e.object = i <;> simp [part, own]

theorem part_other {i : ι} {l : List (Event α)} (other : ∀ e ∈ l, owner e.object ≠ i) :
    part owner i l = [] := by
  simpa [part, List.filter_eq_nil_iff] using other

theorem part_own {i : ι} {l : List (Event α)} (own : ∀ e ∈ l, owner e.object = i) :
    part owner i l = l := by
  simpa [part, List.filter_eq_self] using own

theorem live_part {log : List (Event α)} {x : α} {i : ι} (own : owner x = i) :
    Live (part owner i log) x ↔ Live log x := by
  simp [Live, mem_part, Event.object, own]

theorem fine_part (log : List (Event α)) (e : Event α) :
    Fine (part owner (owner e.object) log) e ↔ Fine log e := by
  cases e with
  | made x => simp [Fine, Tidy, Safe, mem_part, Event.object]
  | used x => simp [Fine, Tidy, Safe, live_part, Event.object]
  | released x => simp [Fine, Tidy, Safe, live_part, Event.object]

/-- A log is fine exactly if it is for each owner of objects, whoever else has his turns in it. -/
theorem each_fine_parts (owner : α → ι) (log : List (Event α)) :
    Each Fine [] log ↔ ∀ i, Each Fine [] (part owner i log) := by
  induction log using List.reverseRecOn with
  | nil => simp
  | append_singleton log e ih =>
    simp only [each_append, each_cons, each_nil, and_true, List.nil_append, part_append, ih]
    constructor
    · rintro ⟨before, last⟩ i
      refine ⟨before i, ?_⟩
      rw [part_cons]
      split
      · rename_i own
        subst own
        exact ⟨(fine_part log e).mpr last, trivial⟩
      · trivial
    · intro all
      refine ⟨fun i => (all i).1, ?_⟩
      have own := (all (owner e.object)).2
      rw [part_cons, if_pos rfl] at own
      exact (fine_part log e).mp own.1

end

/-! ### Books -/

/-- `held i x`: holder `i` has the object. -/
structure Books (log : List (Event α)) (held : ι → α → Prop) (lost : α → Prop) : Prop where
  tidy : Each Tidy [] log
  live_iff : ∀ x, Live log x ↔ (∃ i, held i x) ∨ lost x
  alone : ∀ {i j x}, held i x → held j x → i = j
  unheld : ∀ {x}, lost x → ∀ i, ¬ held i x

namespace Books

variable {log : List (Event α)} {held held' : ι → α → Prop} {lost lost' : α → Prop}

theorem start : Books ([] : List (Event α)) (fun _ : ι => fun _ => False) fun _ => False where
  tidy := trivial
  live_iff x := by simp [Live]
  alone := False.elim
  unheld := False.elim

theorem congr (books : Books log held lost) (same : ∀ i x, held' i x ↔ held i x)
    (same' : ∀ x, lost' x ↔ lost x) : Books log held' lost' := by
  obtain rfl : held' = held := funext fun i => funext fun x => propext (same i x)
  obtain rfl : lost' = lost := funext fun x => propext (same' x)
  exact books

theorem live (books : Books log held lost) {i : ι} {x : α} (has : held i x) : Live log x :=
  (books.live_iff x).mpr (Or.inl ⟨i, has⟩)

theorem unmade (books : Books log held lost) {x : α} (fresh : made x ∉ log) :
    (∀ i, ¬ held i x) ∧ ¬ lost x := by
  have dead : ¬ Live log x := fun live => fresh live.1
  rw [books.live_iff, not_or, not_exists] at dead
  exact dead

theorem uses (books : Books log held lost) (l : List α) :
    Books (log ++ l.map used) held lost where
  tidy := by
    refine (each_append _ _ _ _).mpr ⟨books.tidy, ?_⟩
    rw [List.nil_append]
    generalize log = before
    induction l generalizing before with
    | nil => trivial
    | cons x l ih => exact ⟨trivial, ih _⟩
  live_iff x := (live_uses log l x).trans (books.live_iff x)
  alone := books.alone
  unheld := books.unheld

/-- A new object goes to `i`. -/
theorem make (books : Books log held lost) {i : ι} {x : α} (fresh : made x ∉ log)
    (gets : ∀ j y, held' j y ↔ held j y ∨ j = i ∧ y = x) :
    Books (log ++ [made x]) held' lost where
  tidy := (each_append _ _ _ _).mpr ⟨books.tidy, fresh, trivial⟩
  live_iff y := by
    rw [live_made books.tidy fresh, books.live_iff]
    constructor
    · rintro ((⟨j, has⟩ | gone) | rfl)
      · exact Or.inl ⟨j, (gets j y).mpr (Or.inl has)⟩
      · exact Or.inr gone
      · exact Or.inl ⟨i, (gets i y).mpr (Or.inr ⟨rfl, rfl⟩)⟩
    · rintro (⟨j, has⟩ | gone)
      · rcases (gets j y).mp has with old | ⟨_, rfl⟩
        · exact Or.inl (Or.inl ⟨j, old⟩)
        · exact Or.inr rfl
      · exact Or.inl (Or.inr gone)
  alone {j k y} one two := by
    obtain ⟨none, _⟩ := books.unmade fresh
    rcases (gets j y).mp one with old | ⟨rfl, rfl⟩
    · rcases (gets k y).mp two with old' | ⟨_, rfl⟩
      · exact books.alone old old'
      · exact absurd old (none j)
    · rcases (gets k y).mp two with old | ⟨rfl, _⟩
      · exact absurd old (none k)
      · rfl
  unheld {y} gone j has := by
    rcases (gets j y).mp has with old | ⟨_, rfl⟩
    · exact books.unheld gone j old
    · exact (books.unmade fresh).2 gone

/-- A new object that nobody keeps is lost. -/
theorem spoil (books : Books log held lost) {x : α} (fresh : made x ∉ log)
    (more : ∀ y, lost' y ↔ lost y ∨ y = x) : Books (log ++ [made x]) held lost' where
  tidy := (each_append _ _ _ _).mpr ⟨books.tidy, fresh, trivial⟩
  live_iff y := by
    rw [live_made books.tidy fresh, books.live_iff, more, or_assoc]
  alone := books.alone
  unheld {y} gone j has := by
    rcases (more y).mp gone with old | rfl
    · exact books.unheld old j has
    · exact (books.unmade fresh).1 j has

/-- What `i` has goes back. -/
theorem release (books : Books log held lost) {i : ι} {x : α} (has : held i x)
    (gives : ∀ j y, held' j y ↔ held j y ∧ y ≠ x) : Books (log ++ [released x]) held' lost where
  tidy := (each_append _ _ _ _).mpr ⟨books.tidy, books.live has, trivial⟩
  live_iff y := by
    rw [live_released, books.live_iff]
    constructor
    · rintro ⟨⟨j, has'⟩ | gone, other⟩
      · exact Or.inl ⟨j, (gives j y).mpr ⟨has', other⟩⟩
      · exact Or.inr gone
    · rintro (⟨j, has'⟩ | gone)
      · obtain ⟨old, other⟩ := (gives j y).mp has'
        exact ⟨Or.inl ⟨j, old⟩, other⟩
      · exact ⟨Or.inr gone, fun same => books.unheld gone i (same ▸ has)⟩
  alone one two := books.alone ((gives _ _).mp one).1 ((gives _ _).mp two).1
  unheld gone j has' := books.unheld gone j ((gives _ _).mp has').1

/-- What one holder has goes to another, each object to one. -/
theorem hand (books : Books log held lost) (alone : ∀ {i j x}, held' i x → held' j x → i = j)
    (same : ∀ x, (∃ i, held' i x) ↔ ∃ i, held i x) : Books log held' lost where
  tidy := books.tidy
  live_iff x := by rw [books.live_iff, same]
  alone := alone
  unheld {x} gone i has := by
    obtain ⟨j, old⟩ := (same x).mp ⟨i, has⟩
    exact books.unheld gone j old

theorem makes (books : Books log held lost) {i : ι} {l : List α} (distinct : l.Nodup)
    (fresh : ∀ x ∈ l, made x ∉ log) (gets : ∀ j y, held' j y ↔ held j y ∨ j = i ∧ y ∈ l) :
    Books (log ++ l.map made) held' lost := by
  induction l generalizing log held with
  | nil => simpa using books.congr (fun j y => by simp [gets]) fun _ => Iff.rfl
  | cons x l ih =>
    obtain ⟨apart, distinct⟩ := List.nodup_cons.mp distinct
    have first : Books (log ++ [made x]) (fun j y => held j y ∨ j = i ∧ y = x) lost :=
      books.make (fresh x List.mem_cons_self) fun _ _ => Iff.rfl
    have rest := ih first distinct (fun y member => ?_) fun j y => ?_
    · rwa [List.append_assoc] at rest
    · have other : y ≠ x := fun same => apart (same ▸ member)
      simpa [other] using fresh y (List.mem_cons_of_mem x member)
    · rw [gets, List.mem_cons]
      tauto

theorem releases (books : Books log held lost) {l : List α} (distinct : l.Nodup)
    (has : ∀ x ∈ l, ∃ i, held i x) (gives : ∀ j y, held' j y ↔ held j y ∧ y ∉ l) :
    Books (log ++ l.map released) held' lost := by
  induction l generalizing log held with
  | nil => simpa using books.congr (fun j y => by simp [gives]) fun _ => Iff.rfl
  | cons x l ih =>
    obtain ⟨apart, distinct⟩ := List.nodup_cons.mp distinct
    obtain ⟨i, own⟩ := has x List.mem_cons_self
    have first : Books (log ++ [released x]) (fun j y => held j y ∧ y ≠ x) lost :=
      books.release own fun _ _ => Iff.rfl
    have rest := ih first distinct (fun y member => ?_) fun j y => ?_
    · rwa [List.append_assoc] at rest
    · obtain ⟨j, own'⟩ := has y (List.mem_cons_of_mem x member)
      exact ⟨j, own', fun same => apart (same ▸ member)⟩
    · rw [gives, List.mem_cons, not_or]
      tauto

/-- What somebody has is lost when nobody has it any more. -/
theorem leave (books : Books log held lost) (held' : ι → α → Prop)
    (kept : ∀ {i x}, held' i x → held i x)
    (same : ∀ x, (∃ i, held' i x) ∨ lost' x ↔ (∃ i, held i x) ∨ lost x)
    (unheld : ∀ {x}, lost' x → ∀ i, ¬ held' i x) : Books log held' lost' where
  tidy := books.tidy
  live_iff x := (books.live_iff x).trans (same x).symm
  alone one two := books.alone (kept one) (kept two)
  unheld := unheld

/-- When nobody holds anything any more, what has been made has been released once, except what is
lost. -/
theorem released_iff [DecidableEq α] (books : Books log held lost) (empty : ∀ i x, ¬ held i x)
    {x : α} (there : made x ∈ log) : log.count (released x) = 1 ↔ ¬ lost x := by
  rw [count_released books.tidy there, books.live_iff]
  simp [empty]

end Books

end Solusek.Lifetimes
