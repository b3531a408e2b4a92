import Solusek.Proofs.ConfigTree

/-!
# Progress

`config_parse` for any `shift`: a call takes the lines in front of it that are indented far
enough. The turn that calls and retries takes nothing itself, but the call it makes works at the
indentation of the first line, which it therefore takes.
-/

namespace Solusek.Config

open Texts

/-! ### What a run goes through -/

/-- The turns of the loop and of the calls in it, down to the result. -/
inductive Runs : Int → Bool → List CNode → Str → Except Exn (List CNode × Str) → Prop where
  | ends {shift : Int} {fresh : Bool} {Children : List CNode} {body : Str}
      (done : toInt (findChar body '\n') = -1 ∨ innerShift (firstLine body) < shift) :
      Runs shift fresh Children body (.ok (Children, body))
  | fails {shift : Int} {fresh : Bool} {Children : List CNode} {body : Str} {e : Exn}
      (more : toInt (findChar body '\n') ≠ -1) (same : innerShift (firstLine body) = shift)
      (bad : lineNode ((firstLine body).dropWhile isIndent) = .error e ∨
        ∃ node, lineNode ((firstLine body).dropWhile isIndent) = .ok node ∧
          substr body (toSize (intSucc (toInt (findChar body '\n')))) = .error e) :
      Runs shift fresh Children body (.error e)
  | line {shift : Int} {fresh : Bool} {Children : List CNode} {body rest : Str}
      {node : Option CNode} {r : Except Exn (List CNode × Str)}
      (more : toInt (findChar body '\n') ≠ -1) (same : innerShift (firstLine body) = shift)
      (made : lineNode ((firstLine body).dropWhile isIndent) = .ok node)
      (cut : substr body (toSize (intSucc (toInt (findChar body '\n')))) = .ok rest)
      (later : Runs shift (fresh && node.isNone) (Children ++ node.toList) rest r) :
      Runs shift fresh Children body r
  | callFails {shift : Int} {fresh : Bool} {Children : List CNode} {body : Str} {e : Exn}
      (more : toInt (findChar body '\n') ≠ -1) (deeper : shift < innerShift (firstLine body))
      (call : Runs (innerShift (firstLine body)) true (lastChildren fresh Children) body
        (.error e)) :
      Runs shift fresh Children body (.error e)
  | call {shift : Int} {fresh : Bool} {Children inner : List CNode} {body rest : Str}
      {r : Except Exn (List CNode × Str)}
      (more : toInt (findChar body '\n') ≠ -1) (deeper : shift < innerShift (firstLine body))
      (call : Runs (innerShift (firstLine body)) true (lastChildren fresh Children) body
        (.ok (inner, rest)))
      (later : Runs shift fresh (setLastChildren fresh Children inner) rest r) :
      Runs shift fresh Children body r

theorem configRun_runs {fuel : Nat} {shift : Int} {fresh : Bool} {Children : List CNode}
    {body : Str} {r : Except Exn (List CNode × Str)}
    (ran : configRun fuel shift fresh Children body = some r) : Runs shift fresh Children body r := by
  induction fuel generalizing shift fresh Children body r with
  | zero => cases ran
  | succ fuel ih =>
    rw [configRun] at ran
    split at ran
    · rename_i last
      obtain rfl := Option.some.inj ran
      exact .ends (.inl last)
    · rename_i more
      split at ran
      · rename_i deeper
        split at ran
        · cases ran
        · rename_i e call
          obtain rfl := Option.some.inj ran
          exact .callFails more deeper (ih call)
        · rename_i inner rest call
          exact .call more deeper (ih call) (ih ran)
      · rename_i level
        split at ran
        · rename_i less
          obtain rfl := Option.some.inj ran
          exact .ends (.inr less)
        · rename_i reached
          have same : (innerShift (firstLine body) : Int) = shift := by omega
          split at ran
          · rename_i e bad
            obtain rfl := Option.some.inj ran
            exact .fails more same (.inl bad)
          · rename_i node made
            split at ran
            · rename_i e bad
              obtain rfl := Option.some.inj ran
              exact .fails more same (.inr ⟨node, made, bad⟩)
            · rename_i rest cut
              exact .line more same made cut (ih ran)

/-- No call adds to the text, and one that starts with a line of its own takes some of it. -/
theorem Runs.shorter {shift : Int} {fresh : Bool} {Children c : List CNode} {body rest : Str}
    (runs : Runs shift fresh Children body (.ok (c, rest))) :
    rest.length ≤ body.length ∧ (toInt (findChar body '\n') ≠ -1 →
      shift ≤ innerShift (firstLine body) → rest.length < body.length) := by
  generalize result : Except.ok (c, rest) = r at runs
  induction runs generalizing c rest with
  | ends done =>
    obtain ⟨_, rfl⟩ := Prod.mk.inj (Except.ok.inj result)
    refine ⟨Nat.le_refl _, fun more reached => ?_⟩
    rcases done with last | less
    · exact absurd last more
    · omega
  | fails more same bad => cases result
  | line more same made cut later ih =>
    have first := rest_shorter more cut
    have behind := (ih result).1
    exact ⟨by omega, fun _ _ => by omega⟩
  | callFails more deeper call ih => cases result
  | call more deeper call later callIh laterIh =>
    have first := (callIh rfl).2 more (Int.le_refl _)
    have behind := (laterIh result).1
    exact ⟨by omega, fun _ _ => by omega⟩

/-- Enough for the turns and calls on `body`, and for one call more. -/
def enough (body : Str) : Nat := 2 * body.length + 2

def Returns (fuel : Nat) (shift : Int) (fresh : Bool) (Children : List CNode) (body : Str)
    (r : Except Exn (List CNode × Str)) : Prop :=
  ∀ more, fuel ≤ more → configRun more shift fresh Children body = some r

section

variable {shift : Int} {fresh : Bool} {Children : List CNode} {body : Str}

theorem returns_turn {fuel : Nat} {r : Except Exn (List CNode × Str)}
    (turn : ∀ f, fuel ≤ f → configRun (f + 1) shift fresh Children body = some r) :
    Returns (fuel + 1) shift fresh Children body r := fun more room => by
  obtain ⟨f, rfl⟩ := Nat.exists_eq_add_of_le' room
  exact turn (f + fuel) (Nat.le_add_left _ _)

/-- A call that starts with a line of its own, or ends, makes no call before it takes a line. -/
theorem returns_level (shorter : ∀ rest : Str, rest.length < body.length →
      ∀ shift fresh Children, ∃ r, Returns (enough rest) shift fresh Children rest r)
    (level : toInt (findChar body '\n') = -1 ∨ innerShift (firstLine body) ≤ shift) :
    ∃ r, Returns (2 * body.length + 1) shift fresh Children body r := by
  by_cases last : toInt (findChar body '\n') = -1
  · refine ⟨.ok (Children, body), returns_turn fun f _ => ?_⟩
    rw [configRun, if_pos last]
  have flat : ¬ (innerShift (firstLine body) : Int) > shift :=
    Int.not_lt.mpr (level.resolve_left last)
  by_cases less : (innerShift (firstLine body) : Int) < shift
  · refine ⟨.ok (Children, body), returns_turn fun f _ => ?_⟩
    rw [configRun, if_neg last, if_neg flat, if_pos less]
  cases made : lineNode ((firstLine body).dropWhile isIndent) with
  | error e =>
    refine ⟨.error e, returns_turn fun f _ => ?_⟩
    rw [configRun, if_neg last, if_neg flat, if_neg less, made]
  | ok node =>
    cases cut : substr body (toSize (intSucc (toInt (findChar body '\n')))) with
    | error e =>
      refine ⟨.error e, returns_turn fun f _ => ?_⟩
      rw [configRun, if_neg last, if_neg flat, if_neg less, made]
      simp only [cut]
    | ok rest =>
      have fewer := rest_shorter last cut
      obtain ⟨r, returns⟩ := shorter rest fewer shift (fresh && node.isNone)
        (Children ++ node.toList)
      refine ⟨r, returns_turn fun f room => ?_⟩
      rw [configRun, if_neg last, if_neg flat, if_neg less, made]
      simp only [cut]
      apply returns
      unfold enough
      omega

end

theorem configRun_returns (body : Str) (shift : Int) (fresh : Bool) (Children : List CNode) :
    ∃ r, Returns (enough body) shift fresh Children body r := by
  induction size : body.length using Nat.strong_induction_on
    generalizing body shift fresh Children with
  | _ n ih =>
    have shorter (rest : Str) (fewer : rest.length < body.length) (shift : Int) (fresh : Bool)
        (Children : List CNode) : ∃ r, Returns (enough rest) shift fresh Children rest r :=
      ih rest.length (by omega) rest shift fresh Children rfl
    by_cases level : toInt (findChar body '\n') = -1 ∨ innerShift (firstLine body) ≤ shift
    · obtain ⟨r, returns⟩ := @returns_level shift fresh Children body shorter level
      exact ⟨r, fun fuel room => returns fuel ((Nat.le_succ _).trans room)⟩
    have more : toInt (findChar body '\n') ≠ -1 := fun last => level (.inl last)
    have deeper : (innerShift (firstLine body) : Int) > shift :=
      Int.not_le.mp fun flat => level (.inr flat)
    obtain ⟨r, call⟩ := @returns_level (innerShift (firstLine body)) true
      (lastChildren fresh Children) body shorter (.inr (Int.le_refl _))
    rcases r with e | ⟨inner, rest⟩
    · refine ⟨.error e, returns_turn fun f room => ?_⟩
      rw [configRun, if_neg more, if_pos deeper, call f room]
    · have taken := (configRun_runs (call _ (Nat.le_refl _))).shorter.2 more (Int.le_refl _)
      obtain ⟨r, later⟩ := shorter rest taken shift fresh (setLastChildren fresh Children inner)
      refine ⟨r, returns_turn fun f room => ?_⟩
      rw [configRun, if_neg more, if_pos deeper, call f room]
      apply later
      unfold enough
      omega

/-! ### The lines that are taken -/

/-- The line is indented at least as far as `shift`, which may be negative. -/
def reaches (shift : Int) (l : Str) : Bool := shift ≤ innerShift l

theorem reaches_wider {shift w : Int} (wider : shift ≤ w) (l : Str) (inside : reaches w l = true) :
    reaches shift l = true :=
  decide_eq_true (wider.trans (of_decide_eq_true inside))

theorem first_cut {ls : List Str} (fine : ∀ l ∈ ls, '\n' ∉ l ∧ l.length + 1 < 2 ^ 31) {last : Str}
    (ends : '\n' ∉ last) (more : toInt (findChar (terminated ls ++ last) '\n') ≠ -1) :
    ∃ l rest, ls = l :: rest ∧ firstLine (terminated ls ++ last) = l ∧
      substr (terminated ls ++ last)
        (toSize (intSucc (toInt (findChar (terminated ls ++ last) '\n')))) =
        .ok (terminated rest ++ last) := by
  cases ls with
  | nil =>
    rw [show terminated [] ++ last = last from rfl, findChar_none ends] at more
    exact absurd rfl more
  | cons l rest =>
    obtain ⟨oneLine, short⟩ := fine l List.mem_cons_self
    obtain ⟨position, first⟩ := firstLine_eq oneLine short (terminated rest ++ last)
    refine ⟨l, rest, rfl, ?_, ?_⟩
    · rw [terminated_cons, first]
    · rw [terminated_cons, position, intSucc_small short, toSize_natCast (by omega), substr_behind]

theorem stop_takes {ls : List Str} (fine : ∀ l ∈ ls, '\n' ∉ l ∧ l.length + 1 < 2 ^ 31) {last : Str}
    {shift : Int}
    (done : toInt (findChar (terminated ls ++ last) '\n') = -1 ∨
      innerShift (firstLine (terminated ls ++ last)) < shift) :
    ls.takeWhile (reaches shift) = [] := by
  cases ls with
  | nil => rfl
  | cons l rest =>
    obtain ⟨oneLine, short⟩ := fine l List.mem_cons_self
    obtain ⟨position, first⟩ := firstLine_eq oneLine short (terminated rest ++ last)
    rw [terminated_cons, position, first] at done
    refine List.takeWhile_cons_of_neg ?_
    unfold reaches
    rw [decide_eq_true_iff]
    omega

theorem Runs.leaves {ls : List Str} (fine : ∀ l ∈ ls, '\n' ∉ l ∧ l.length + 1 < 2 ^ 31) {last : Str}
    (noEnd : '\n' ∉ last) {shift : Int} {fresh : Bool} {Children : List CNode}
    {r : Except Exn (List CNode × Str)}
    (runs : Runs shift fresh Children (terminated ls ++ last) r) :
    ∃ c, r = .ok (c, terminated (ls.dropWhile (reaches shift)) ++ last) := by
  generalize text : terminated ls ++ last = body at runs
  induction runs generalizing ls with
  | @ends shift fresh Children body done =>
    subst text
    have whole := List.takeWhile_append_dropWhile (p := reaches shift) (l := ls)
    rw [stop_takes fine done, List.nil_append] at whole
    exact ⟨Children, by rw [whole]⟩
  | fails more same bad =>
    subst text
    obtain ⟨l, rest, rfl, first, cut⟩ := first_cut fine noEnd more
    rw [first, cut, lineNode_item (fine l List.mem_cons_self).2] at bad
    rcases bad with bad | ⟨_, _, bad⟩ <;> cases bad
  | line more same made cut later ih =>
    subst text
    obtain ⟨l, rest, rfl, first, cut'⟩ := first_cut fine noEnd more
    rw [cut'] at cut
    rw [first] at same
    have here : reaches _ l = true := decide_eq_true same.ge
    rw [List.dropWhile_cons_of_pos here]
    exact ih (fun m member => fine m (List.mem_cons_of_mem _ member)) (Except.ok.inj cut)
  | callFails more deeper call ih =>
    obtain ⟨c, impossible⟩ := ih fine text
    cases impossible
  | call more deeper call later callIh laterIh =>
    obtain ⟨c, taken⟩ := callIh fine text
    obtain ⟨_, rfl⟩ := Prod.mk.inj (Except.ok.inj taken)
    rw [dropWhile_weaker (reaches_wider deeper.le) ls]
    exact laterIh (fun m member => fine m ((List.dropWhile_suffix _).subset member)) rfl

/-- `config_parse` returns `r`, with any fuel that is enough. -/
def Parses (shift : Int) (parent : List CNode) (body : Str)
    (r : Except Exn (List CNode × Str)) : Prop :=
  Returns (enough body) shift true parent body r

theorem parses_leaves {ls : List Str} (fine : ∀ l ∈ ls, '\n' ∉ l ∧ l.length + 1 < 2 ^ 31) {last : Str}
    (ends : '\n' ∉ last) (shift : Int) (parent : List CNode) :
    ∃ c, Parses shift parent (terminated ls ++ last)
      (.ok (c, terminated (ls.dropWhile (reaches shift)) ++ last)) := by
  obtain ⟨r, returns⟩ := configRun_returns (terminated ls ++ last) shift true parent
  obtain ⟨c, rfl⟩ := (configRun_runs (returns _ (Nat.le_refl _))).leaves fine ends
  exact ⟨c, returns⟩

end Solusek.Config
