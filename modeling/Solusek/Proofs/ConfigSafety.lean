import Solusek.Model.ConfigChecked
import Solusek.Proofs.ConfigProgress

/-!
# Indices into configuration lines

The loop over the spaces at the end of a name or a value stops at a character that is none. In
a string of spaces it meets none and goes on in front of it.
-/

namespace Solusek.Config.Checked

open Texts

/-! ### Spaces -/

def Solid (s : Str) : Prop := ∃ c ∈ s, c ≠ ' '

instance : DecidablePred Solid := fun s => List.decidableBEx (· ≠ ' ') s

theorem skipBack_nil : skipBack [] = .error .outside := by
  have wrapped : load [] (toSize ((([] : Str).length : Int) - 1)) = .error .outside := by decide
  rw [skipBack]
  split
  · rename_i f failed
    rw [wrapped] at failed
    rw [Except.error.inj failed]
  · rename_i c found
    rw [wrapped] at found
    cases found

theorem skipBack_found {s rest : Str} {c : Char}
    (found : load s (toSize ((s.length : Int) - 1)) = .ok c)
    (cut : lift (substr s 0 (some (toSize ((s.length : Int) - 1)))) = .ok rest) :
    skipBack s = if c = ' ' then skipBack rest else .ok s := by
  rw [skipBack]
  split
  · rename_i f failed
    rw [found] at failed
    cases failed
  · rename_i d found'
    rw [found] at found'
    rw [← Except.ok.inj found']
    by_cases space : c = ' '
    · rw [if_pos space, if_pos space]
      split
      · rename_i f failed
        rw [cut] at failed
        cases failed
      · rename_i left cut'
        rw [cut] at cut'
        rw [Except.ok.inj cut']
    · rw [if_neg space, if_neg space]

theorem skipBack_snoc {s : Str} {c : Char} (short : (s ++ [c]).length < 2 ^ 64) :
    skipBack (s ++ [c]) = if c = ' ' then skipBack s else .ok (s ++ [c]) := by
  have index : toSize (((s ++ [c]).length : Int) - 1) = s.length := by
    rw [List.length_append] at short
    rw [List.length_append, List.length_singleton, Nat.cast_add, Nat.cast_one, Int.add_sub_cancel]
    exact toSize_natCast (by omega)
  refine skipBack_found ?_ ?_
  · rw [index]
    simp [load]
  · rw [index, substr_left]
    rfl

theorem skipBack_eq {s : Str} (short : s.length < 2 ^ 64) (solid : Solid s) :
    skipBack s = .ok (s.reverse.dropWhile (· == ' ')).reverse := by
  induction s using List.reverseRecOn with
  | nil => simp [Solid] at solid
  | append_singleton s c ih =>
    rw [skipBack_snoc short, List.reverse_append, List.reverse_singleton, List.singleton_append,
      List.dropWhile_cons]
    by_cases space : c = ' '
    · have before : Solid s := by simpa [Solid, space] using solid
      rw [List.length_append] at short
      rw [if_pos space, if_pos (beq_iff_eq.mpr space)]
      exact ih (by omega) before
    · rw [if_neg space, if_neg (by simpa using space)]
      simp

theorem stripSpaces_eq {s : Str} (short : s.length < 2 ^ 64) (solid : Solid s) :
    stripSpaces s = .ok (Config.stripSpaces s) := by
  have fewer := (List.dropWhile_suffix (· == ' ') (l := s)).length_le
  obtain ⟨c, member, other⟩ := solid
  have left : c ∈ s.dropWhile (· == ' ') := (mem_dropWhile (by simpa using other)).mpr member
  unfold stripSpaces Config.stripSpaces
  rw [skipFront_eq rfl]
  exact skipBack_eq (by omega) ⟨c, left, other⟩

theorem stripSpaces_blank {s : Str} (blank : ¬ Solid s) :
    stripSpaces s = .error .outside := by
  have blank : s.dropWhile (· == ' ') = [] := by
    refine List.dropWhile_eq_nil_iff.mpr fun c member => ?_
    by_contra other
    exact blank ⟨c, member, by simpa using other⟩
  unfold stripSpaces
  rw [skipFront_eq rfl, blank]
  exact skipBack_nil

/-! ### Lines -/

/-- The line is no setting, or there is more than spaces on both sides of its colon. -/
def Filled (l : Str) : Prop :=
  ':' ∈ l → Solid ((l.dropWhile isIndent).takeWhile (· ≠ ':')) ∧
    Solid (((l.dropWhile isIndent).dropWhile (· ≠ ':')).drop 1)

instance : DecidablePred Filled := fun l =>
  inferInstanceAs (Decidable (':' ∈ l → Solid ((l.dropWhile isIndent).takeWhile (· ≠ ':')) ∧
    Solid (((l.dropWhile isIndent).dropWhile (· ≠ ':')).drop 1)))

theorem lineNode_colon {name value : Str} (plain : ':' ∉ name) (short : name.length + 1 < 2 ^ 31) :
    lineNode (name ++ ':' :: value) =
      match stripSpaces name with
      | .error f => .error f
      | .ok var =>
        match stripSpaces value with
        | .error f => .error f
        | .ok val => .ok (some (.mk var val [])) := by
  obtain ⟨found, left, right⟩ := substr_cut plain short value
  unfold lineNode
  rw [if_neg found, left, right]
  rfl

theorem lineNode_blank {l : Str} (blank : ':' ∉ l) : lineNode (l.dropWhile isIndent) = .ok none := by
  have absent : ':' ∉ l.dropWhile isIndent := fun member =>
    blank ((mem_dropWhile rfl).mp member)
  unfold lineNode
  simp only [findChar_none absent]
  rfl

/-- What a line that can be counted comes to, with both its strings stripped. -/
theorem lineNode_setting {l : Str} (short : l.length + 1 < 2 ^ 31) (colon : ':' ∈ l) :
    lineNode (l.dropWhile isIndent) =
      match stripSpaces ((l.dropWhile isIndent).takeWhile (· ≠ ':')) with
      | .error f => .error f
      | .ok var =>
        match stripSpaces (((l.dropWhile isIndent).dropWhile (· ≠ ':')).drop 1) with
        | .error f => .error f
        | .ok val => .ok (some (.mk var val [])) := by
  have bytes := (List.dropWhile_suffix isIndent (l := l)).length_le
  have split := split_colon ((mem_dropWhile (rfl : isIndent ':' = false)).mpr colon)
  have absent : ':' ∉ (l.dropWhile isIndent).takeWhile (· ≠ ':') := fun member => by
    simpa using List.mem_takeWhile_imp member
  have size := congrArg List.length split
  rw [List.length_append, List.length_cons] at size
  conv => lhs; rw [split]
  exact lineNode_colon absent (by omega)

theorem lineNode_filled {l : Str} (short : l.length + 1 < 2 ^ 31) (filled : Filled l) :
    lineNode (l.dropWhile isIndent) = lift (Config.lineNode (l.dropWhile isIndent)) := by
  rw [Config.lineNode_item short]
  by_cases colon : ':' ∈ l
  · obtain ⟨name, value⟩ := filled colon
    have left := (List.takeWhile_prefix (· ≠ ':') (l := l.dropWhile isIndent)).length_le
    have right := ((List.drop_suffix 1 _).trans
      (List.dropWhile_suffix (· ≠ ':') (l := l.dropWhile isIndent))).length_le
    have bytes := (List.dropWhile_suffix isIndent (l := l)).length_le
    rw [lineNode_setting short colon, stripSpaces_eq (by omega) name,
      stripSpaces_eq (by omega) value, item_colon colon]
    rfl
  · rw [lineNode_blank colon, item_blank colon]
    rfl

theorem lineNode_outside {l : Str} (short : l.length + 1 < 2 ^ 31) (unfilled : ¬ Filled l) :
    lineNode (l.dropWhile isIndent) = .error .outside := by
  obtain ⟨colon, blank⟩ := Classical.not_imp.mp unfilled
  rw [lineNode_setting short colon]
  by_cases name : Solid ((l.dropWhile isIndent).takeWhile (· ≠ ':'))
  · have left := (List.takeWhile_prefix (· ≠ ':') (l := l.dropWhile isIndent)).length_le
    have bytes := (List.dropWhile_suffix isIndent (l := l)).length_le
    rw [stripSpaces_eq (by omega) name]
    simp only
    rw [stripSpaces_blank fun value => blank ⟨name, value⟩]
  · rw [stripSpaces_blank name]

/-! ### The loop -/

/-- One turn; the indentation is what `Config.configLoop` takes it for. -/
theorem configLoop_turn {w : Nat} {body : Str} (more : toInt (findChar body '\n') ≠ -1)
    (fresh : Bool) (Children : List CNode) : configLoop w fresh Children body =
      if innerShift (firstLine body) > w then
        match configLoop (innerShift (firstLine body)) true (lastChildren fresh Children) body with
        | .error f => .error f
        | .ok (inner, rest) =>
          if rest.length < body.length then
            configLoop w fresh (setLastChildren fresh Children inner) rest
          else .error (.other .diverges)
      else if innerShift (firstLine body) < w then .ok (Children, body)
      else
        match lineNode ((firstLine body).dropWhile isIndent) with
        | .error f => .error f
        | .ok node =>
          match substr body (toSize (intSucc (toInt (findChar body '\n')))) with
          | .error e => .error (.other (.exn e))
          | .ok rest => configLoop w (fresh && node.isNone) (Children ++ node.toList) rest := by
  rw [configLoop, dif_neg more]
  split
  · rename_i f failed
    rw [indent_eq] at failed
    cases failed
  · rename_i inner line found
    rw [indent_eq] at found
    obtain ⟨rfl, rfl⟩ := Prod.mk.inj (Except.ok.inj found)
    split
    · rfl
    · split
      · rfl
      · cases lineNode ((firstLine body).dropWhile isIndent) with
        | error f => rfl
        | ok node =>
          simp only
          split <;> rename_i cut <;> rw [cut]

theorem configLoop_below {w : Nat} {body : Str} (below : Below w body) (fresh : Bool)
    (Children : List CNode) : configLoop w fresh Children body = .ok (Children, body) := by
  by_cases last : toInt (findChar body '\n') = -1
  · rw [configLoop, dif_pos last]
  · have less := below.resolve_left last
    rw [configLoop_turn last, if_neg (Nat.not_lt.mpr less.le), if_pos less]

theorem configLoop_line {w : Nat} {body rest : Str} (more : toInt (findChar body '\n') ≠ -1)
    (same : innerShift (firstLine body) = w)
    (cut : substr body (toSize (intSucc (toInt (findChar body '\n')))) = .ok rest) (fresh : Bool)
    (Children : List CNode) : configLoop w fresh Children body =
      match lineNode ((firstLine body).dropWhile isIndent) with
      | .error f => .error f
      | .ok node => configLoop w (fresh && node.isNone) (Children ++ node.toList) rest := by
  rw [configLoop_turn more, same, if_neg (Nat.lt_irrefl w), if_neg (Nat.lt_irrefl w), cut]

theorem configLoop_call {w : Nat} {body : Str} (more : toInt (findChar body '\n') ≠ -1)
    (deeper : w < innerShift (firstLine body)) (fresh : Bool) (Children : List CNode) :
    configLoop w fresh Children body =
      match configLoop (innerShift (firstLine body)) true (lastChildren fresh Children) body with
      | .error f => .error f
      | .ok (inner, rest) =>
        if rest.length < body.length then
          configLoop w fresh (setLastChildren fresh Children inner) rest
        else .error (.other .diverges) := by
  rw [configLoop_turn more, if_pos deeper]

/-- What comes of taking these lines, when without checks it is `r`. -/
def answer (ls : List Str) (r : Except Exn (List CNode × Str)) :
    Except Fault (List CNode × Str) :=
  if ∀ l ∈ ls, Filled l then r.mapError fun e => .other (.exn e) else .error .outside

theorem answer_ok {ls : List Str} (filled : ∀ l ∈ ls, Filled l)
    (r : Except Exn (List CNode × Str)) : answer ls r = r.mapError fun e => .other (.exn e) :=
  if_pos filled

theorem answer_outside {ls : List Str} (unfilled : ¬ ∀ l ∈ ls, Filled l)
    (r : Except Exn (List CNode × Str)) : answer ls r = .error .outside :=
  if_neg unfilled

theorem answer_behind {ls : List Str} (filled : ∀ l ∈ ls, Filled l) (later : List Str)
    (r : Except Exn (List CNode × Str)) : answer (ls ++ later) r = answer later r :=
  if_congr (List.forall_mem_append.trans (and_iff_right filled)) rfl rfl

theorem answer_before {ls : List Str} (unfilled : ¬ ∀ l ∈ ls, Filled l) (later : List Str)
    (r : Except Exn (List CNode × Str)) : answer (ls ++ later) r = .error .outside :=
  answer_outside (fun all => unfilled (List.forall_mem_append.mp all).1) r

theorem configLoop_answer {ls : List Str} (fine : ∀ l ∈ ls, '\n' ∉ l ∧ l.length + 1 < 2 ^ 31)
    {last : Str} (noEnd : '\n' ∉ last) {shift : Nat} {fresh : Bool} {Children : List CNode}
    {r : Except Exn (List CNode × Str)} (runs : Runs shift fresh Children (terminated ls ++ last) r) :
    configLoop shift fresh Children (terminated ls ++ last) =
      answer (ls.takeWhile (reaches shift)) r := by
  generalize text : terminated ls ++ last = body at runs
  generalize width : (shift : Int) = s at runs
  induction runs generalizing ls shift with
  | @ends s fresh Children body done =>
    subst text width
    rw [stop_takes fine done, configLoop_below (done.imp_right Int.ofNat_lt.mp)]
    rfl
  | fails more same bad =>
    subst text
    obtain ⟨l, rest, rfl, first, cut⟩ := first_cut fine noEnd more
    rw [first, cut, Config.lineNode_item (fine l List.mem_cons_self).2] at bad
    rcases bad with bad | ⟨_, _, bad⟩ <;> cases bad
  | line more same made cut later ih =>
    subst text width
    obtain ⟨l, rest, rfl, first, cut'⟩ := first_cut fine noEnd more
    have here : reaches shift l = true := decide_eq_true (first ▸ same.ge)
    have behind := ih (fun m member => fine m (List.mem_cons_of_mem _ member))
      (Except.ok.inj (cut'.symm.trans cut)) rfl
    have short := (fine l List.mem_cons_self).2
    rw [configLoop_line more (Int.ofNat_inj.mp same) cut, List.takeWhile_cons_of_pos here, first]
    by_cases filled : Filled l
    · rw [first] at made
      rw [lineNode_filled short filled, made]
      exact behind.trans (answer_behind (List.forall_mem_singleton.mpr filled) _ _).symm
    · rw [lineNode_outside short filled]
      exact (answer_before (fun all => filled (List.forall_mem_singleton.mp all)) _ _).symm
  | callFails more deeper call ih =>
    subst text
    obtain ⟨c, impossible⟩ := call.leaves fine noEnd
    cases impossible
  | call more deeper call later callIh laterIh =>
    subst text width
    obtain ⟨c, taken⟩ := call.leaves fine noEnd
    obtain ⟨_, rfl⟩ := Prod.mk.inj (Except.ok.inj taken)
    have shorter := call.shorter.2 more (Int.le_refl _)
    rw [configLoop_call more (Int.ofNat_lt.mp deeper), callIh fine rfl rfl,
      takeWhile_weaker (reaches_wider deeper.le) ls]
    by_cases filled : ∀ l ∈ ls.takeWhile (reaches (innerShift (firstLine (terminated ls ++ last)))),
        Filled l
    · have behind := laterIh (fun m member => fine m ((List.dropWhile_suffix _).subset member))
        rfl rfl
      rw [answer_behind filled, answer_ok filled, ← behind]
      exact if_pos shorter
    · rw [answer_before filled, answer_outside filled]

/-! ### Whole files -/

theorem unquoted_safe (val : Str) : unquoted val ≠ .error .outside := by
  unfold unquoted
  cases val with
  | nil => decide
  | cons c val =>
    have inside : toSize (((c :: val).length : Int) - 1) < (c :: val).length := by
      unfold toSize
      rw [List.length_cons]
      omega
    have found : load (c :: val) (toSize (((c :: val).length : Int) - 1)) =
        .ok (c :: val)[toSize (((c :: val).length : Int) - 1)] := by
      unfold load
      rw [if_neg inside.ne, List.getElem?_eq_getElem inside]
    rw [load_cons, found]
    simp only
    split
    · split
      · unfold lift
        split <;> simp
      · simp
    · simp

theorem get_safe (BaseNode : List CNode) (path : Str) : get BaseNode path ≠ .error .outside := by
  unfold get
  cases configGet BaseNode path with
  | error e => simp [lift]
  | ok found =>
    cases found with
    | none => simp [lift]
    | some node => exact unquoted_safe node.Value

theorem configLoop_file {ls : List Str} (fine : ∀ l ∈ ls, '\n' ∉ l ∧ l.length + 1 < 2 ^ 31)
    {last : Str} (ends : '\n' ∉ last) :
    ∃ top, configLoop 0 true [] (terminated ls ++ last) = answer ls (.ok (top, last)) := by
  obtain ⟨top, parses⟩ := parses_leaves fine ends 0 []
  have all : ls.takeWhile (reaches 0) = ls ∧ ls.dropWhile (reaches 0) = [] := by
    have far : ∀ l ∈ ls, reaches 0 l = true := fun l _ => decide_eq_true (Int.natCast_nonneg _)
    exact ⟨List.takeWhile_eq_self_iff.mpr far, List.dropWhile_eq_nil_iff.mpr far⟩
  rw [all.2] at parses
  have runs : Runs (0 : Nat) true [] _ _ := configRun_runs (parses _ (Nat.le_refl _))
  have came := configLoop_answer fine ends runs
  rw [Nat.cast_zero, all.1] at came
  exact ⟨top, came⟩

/-- No index leaves its string exactly if every line that ends and holds a colon has a character
other than a space on both sides of it. -/
theorem getFrom_safe_iff {ls : List Str} (fine : ∀ l ∈ ls, '\n' ∉ l ∧ l.length + 1 < 2 ^ 31)
    {last : Str} (ends : '\n' ∉ last) (path : Str) :
    getFrom (terminated ls ++ last) path ≠ .error .outside ↔ ∀ l ∈ ls, Filled l := by
  obtain ⟨top, parsed⟩ := configLoop_file fine ends
  unfold getFrom
  rw [parsed]
  by_cases filled : ∀ l ∈ ls, Filled l
  · rw [answer_ok filled]
    exact ⟨fun _ => filled, fun _ => get_safe top path⟩
  · rw [answer_outside filled]
    exact ⟨fun safe => absurd rfl safe, fun all => absurd all filled⟩

theorem getFrom_safe_sample : getFrom "db:\tx\n  user : me\npass:".toList "db/user".toList ≠
    .error .outside := by
  have fine : ∀ l ∈ ["db:\tx".toList, "  user : me".toList], '\n' ∉ l ∧ l.length + 1 < 2 ^ 31 := by
    intro l member
    simp only [List.mem_cons, List.not_mem_nil, or_false] at member
    rcases member with rfl | rfl <;> decide
  have ends : '\n' ∉ "pass:".toList := by decide
  exact (getFrom_safe_iff fine ends "db/user".toList).mpr (by decide)

/-- A section without a value: behind its colon there is nothing to look at. -/
theorem getFrom_section (path : Str) : getFrom "db:\n".toList path = .error .outside := by
  have fine : ∀ l ∈ ["db:".toList], '\n' ∉ l ∧ l.length + 1 < 2 ^ 31 := by
    intro l member
    rw [List.mem_singleton.mp member]
    decide
  obtain ⟨top, parsed⟩ := configLoop_file fine (List.not_mem_nil (a := '\n'))
  have unfilled : ¬ ∀ l ∈ ["db:".toList], Filled l := by decide
  rw [answer_outside unfilled] at parsed
  have text : "db:\n".toList = terminated ["db:".toList] ++ [] := rfl
  unfold getFrom
  rw [text, parsed]

theorem getFrom_unsafe : ¬ ∀ body path, getFrom body path ≠ .error .outside := fun safe =>
  safe "db:\n".toList [] (getFrom_section [])

end Solusek.Config.Checked
