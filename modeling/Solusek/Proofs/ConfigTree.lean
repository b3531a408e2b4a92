import Solusek.Lib.OpenNodes
import Solusek.Proofs.ConfigRoundTrip

/-!
# Indentation

What `config_parse` makes of any text: the levels of the recursion work like one stack of open
indentations, and a node's parent is the nearest earlier line that is indented less.
-/

namespace Solusek.Config

open Texts Nesting

/-! ### Nodes and lines -/

mutual

def cnode : Rose (Str × Str) → CNode
  | .node a children => .mk a.1 a.2 (cnodes children)
termination_by structural t => t

def cnodes : List (Rose (Str × Str)) → List CNode
  | [] => []
  | t :: rest => cnode t :: cnodes rest
termination_by structural l => l

end

theorem cnodes_append (F G : List (Rose (Str × Str))) : cnodes (F ++ G) = cnodes F ++ cnodes G := by
  induction F with
  | nil => rfl
  | cons t F ih => simp only [List.cons_append, cnodes, ih]

/-- The text before the first colon, without the indentation and outer spaces. -/
def nameOf (line : Str) : Str := stripSpaces ((line.dropWhile isIndent).takeWhile (· ≠ ':'))

def valueOf (line : Str) : Str :=
  stripSpaces (((line.dropWhile isIndent).dropWhile (· ≠ ':')).drop 1)

/-- A line as an item: its indentation, and its name and value if it holds a colon. -/
def item (line : Str) : Nat × Option (Str × Str) :=
  (innerShift line, if ':' ∈ line then some (nameOf line, valueOf line) else none)

def terminated (lines : List Str) : Str := lines.flatMap (· ++ ['\n'])

theorem terminated_cons (l : Str) (ls : List Str) (last : Str) :
    terminated (l :: ls) ++ last = l ++ '\n' :: (terminated ls ++ last) := by
  simp [terminated]

theorem terminated_append (xs ys : List Str) :
    terminated (xs ++ ys) = terminated xs ++ terminated ys := List.flatMap_append

theorem split_colon {s : Str} (colon : ':' ∈ s) :
    s = s.takeWhile (· ≠ ':') ++ ':' :: (s.dropWhile (· ≠ ':')).drop 1 := by
  obtain ⟨a, b, rfl, absent⟩ := List.eq_append_cons_of_mem colon
  rw [takeWhile_ne absent, dropWhile_ne absent, List.drop_one, List.tail_cons]

theorem lineNode_item {l : Str} (short : l.length + 1 < 2 ^ 31) :
    lineNode (l.dropWhile isIndent) = .ok ((item l).2.map fun a => .mk a.1 a.2 []) := by
  have colonSolid : isIndent ':' = false := rfl
  have bytes := (List.dropWhile_suffix (p := isIndent) (l := l)).length_le
  unfold item
  by_cases colon : ':' ∈ l
  · have split := split_colon ((mem_dropWhile colonSolid).mpr colon)
    have absent : ':' ∉ (l.dropWhile isIndent).takeWhile (· ≠ ':') := fun member => by
      simpa using List.mem_takeWhile_imp member
    have size := congrArg List.length split
    rw [List.length_append, List.length_cons] at size
    rw [if_pos colon]
    conv => lhs; rw [split]
    rw [lineNode_cut absent (by omega)]
    rfl
  · have absent : ':' ∉ l.dropWhile isIndent := fun member =>
      colon ((mem_dropWhile colonSolid).mp member)
    rw [if_neg colon]
    unfold lineNode
    simp only [findChar_none absent]
    rfl

theorem item_blank {l : Str} (blank : ':' ∉ l) : item l = (innerShift l, none) := by
  unfold item
  rw [if_neg blank]

theorem item_colon {l : Str} (colon : ':' ∈ l) :
    item l = (innerShift l, some (nameOf l, valueOf l)) := by
  unfold item
  rw [if_pos colon]

/-! ### Levels -/

/-- The line is indented at least as far as `shift`. -/
def within (shift : Nat) (l : Str) : Bool := shift ≤ innerShift l

/-- What the loop at `shift` makes of the lines that are indented far enough. -/
def taken (shift : Nat) (fresh : Bool) (F : List (Rose (Str × Str))) (ls : List Str) :
    List (Rose (Str × Str)) :=
  (run ⟨F, if fresh then [] else [shift]⟩
    ((ls.takeWhile (within shift)).map item)).forest

def Reads (shift : Nat) (fresh : Bool) (F : List (Rose (Str × Str))) (ls : List Str)
    (last : Str) : Prop :=
  configLoop shift fresh (cnodes F) (terminated ls ++ last) =
    .ok (cnodes (taken shift fresh F ls),
      terminated (ls.dropWhile (within shift)) ++ last)

theorem reads_own {l : Str} {ls : List Str} {last : Str} (oneLine : '\n' ∉ l)
    (short : l.length + 1 < 2 ^ 31)
    (later : ∀ fresh F, (fresh = false → F ≠ []) → Reads (innerShift l) fresh F ls last)
    (fresh : Bool) (F : List (Rose (Str × Str))) (started : fresh = false → F ≠ []) :
    Reads (innerShift l) fresh F (l :: ls) last := by
  have here : within (innerShift l) l = true := decide_eq_true (Nat.le_refl _)
  unfold Reads taken
  rw [terminated_cons, configLoop_cut oneLine short (lineNode_item short),
    List.takeWhile_cons_of_pos here, List.dropWhile_cons_of_pos here, List.map_cons, run_cons]
  cases found : (item l).2 with
  | some a =>
    have made : cnodes F ++ [CNode.mk a.1 a.2 []] = cnodes (F ++ [.node a []]) :=
      (cnodes_append F [.node a []]).symm
    have stepped : State.step ⟨F, if fresh then [] else [innerShift l]⟩ (item l) =
        ⟨F ++ [.node a []], [innerShift l]⟩ := by
      have whole : item l = (innerShift l, some a) := Prod.ext rfl found
      rw [whole]
      cases fresh <;> simp [State.step, attach]
    rw [Option.map_some, Option.isNone_some, Bool.and_false, Option.toList_some, made, stepped]
    exact later false (F ++ [.node a []]) (by simp)
  | none =>
    have stepped : State.step ⟨F, if fresh then [] else [innerShift l]⟩ (item l) =
        ⟨F, if fresh then [] else [innerShift l]⟩ := by
      have whole : item l = (innerShift l, none) := Prod.ext rfl found
      rw [whole]
      cases fresh <;> simp [State.step]
    rw [Option.map_none, Option.isNone_none, Bool.and_true, Option.toList_none, List.append_nil,
      stepped]
    exact later fresh F started

theorem within_wider {shift w : Nat} (wider : shift ≤ w) (l : Str) (inside : within w l = true) :
    within shift l = true :=
  decide_eq_true (wider.trans (of_decide_eq_true inside))

theorem items_above (w : Nat) (ls : List Str) :
    ∀ x ∈ (ls.takeWhile (within w)).map item, w ≤ x.1 := by
  intro x member
  obtain ⟨l, inside, rfl⟩ := List.mem_map.mp member
  have deep : within w l = true := List.mem_takeWhile_imp inside
  exact of_decide_eq_true deep

theorem items_next (shift w : Nat) (ls : List Str) :
    ∀ x ∈ (((ls.dropWhile (within w)).takeWhile (within shift)).map item).head?, x.1 < w := by
  intro x first
  have outside := List.head?_dropWhile_not (within w) ls
  rw [List.head?_map, List.head?_takeWhile] at first
  cases head : (ls.dropWhile (within w)).head? with
  | none => simp [head] at first
  | some l =>
    rw [head] at first outside
    obtain ⟨_, kept, rfl⟩ := Option.map_eq_some_iff.mp first
    obtain rfl := Option.some.inj (Option.filter_eq_some_iff.mp kept).1
    exact Nat.lt_of_not_le (of_decide_eq_false outside)

theorem taken_same {shift w : Nat} (deeper : shift < w) (F : List (Rose (Str × Str)))
    (ls : List Str) :
    taken shift true F ls = taken shift true (taken w true F ls) (ls.dropWhile (within w)) := by
  unfold taken
  rw [takeWhile_weaker (within_wider deeper.le) ls, List.map_append]
  exact run_same (items_above w ls) (items_next shift w ls) F

theorem taken_nested {shift w : Nat} (deeper : shift < w) (F children : List (Rose (Str × Str)))
    (b : Str × Str) (ls : List Str) :
    taken shift false (F ++ [.node b children]) ls =
      taken shift false (F ++ [.node b (taken w true children ls)]) (ls.dropWhile (within w)) := by
  unfold taken
  rw [takeWhile_weaker (within_wider deeper.le) ls, List.map_append]
  exact run_nested deeper (items_above w ls) (items_next shift w ls) F children b

/-- A line indented further than the loop is left to the call for it. -/
theorem reads_nested {l : Str} {ls : List Str} {last : Str} (oneLine : '\n' ∉ l)
    (short : l.length + 1 < 2 ^ 31) {shift : Nat} (deeper : shift < innerShift l)
    (own : ∀ F, Reads (innerShift l) true F (l :: ls) last)
    (later : ∀ fresh F, (fresh = false → F ≠ []) →
      Reads shift fresh F (ls.dropWhile (within (innerShift l))) last)
    (fresh : Bool) (F : List (Rose (Str × Str))) (started : fresh = false → F ≠ []) :
    Reads shift fresh F (l :: ls) last := by
  have here : within (innerShift l) l = true := decide_eq_true (Nat.le_refl _)
  obtain ⟨position, first⟩ := firstLine_eq oneLine short (terminated ls ++ last)
  rw [← terminated_cons] at position first
  have more : toInt (findChar (terminated (l :: ls) ++ last) '\n') ≠ -1 := by omega
  have shorter : (terminated (ls.dropWhile (within (innerShift l))) ++ last).length <
      (terminated (l :: ls) ++ last).length := by
    have whole := congrArg (fun xs => (terminated xs).length)
      (List.takeWhile_append_dropWhile (p := within (innerShift l)) (l := ls))
    simp only [terminated_append, List.length_append] at whole
    rw [terminated_cons]
    simp only [List.length_append, List.length_cons]
    omega
  have call (F : List (Rose (Str × Str))) :
      configLoop (innerShift (firstLine (terminated (l :: ls) ++ last))) true (cnodes F)
        (terminated (l :: ls) ++ last) =
      .ok (cnodes (taken (innerShift l) true F (l :: ls)),
        terminated (ls.dropWhile (within (innerShift l))) ++ last) := by
    rw [first, own F, List.dropWhile_cons_of_pos here]
  have inside : shift < innerShift (firstLine (terminated (l :: ls) ++ last)) := by rwa [first]
  have far := within_wider deeper.le l here
  unfold Reads
  rw [List.dropWhile_cons_of_pos far]
  cases fresh with
  | true =>
    have nested := @configLoop_deeper shift _ _ _ true (cnodes F) more inside (call F) shorter
    rw [nested, taken_same deeper, List.dropWhile_cons_of_pos here,
      dropWhile_weaker (within_wider deeper.le) ls]
    exact later true _ (by simp)
  | false =>
    obtain ⟨G, t, rfl⟩ := List.eq_nil_or_concat' F |>.resolve_left (started rfl)
    obtain ⟨b, children⟩ := t
    have parent : lastChildren false (cnodes (G ++ [.node b children])) = cnodes children := by
      simp [lastChildren, cnodes_append, cnodes, cnode, CNode.Children]
    have given : setLastChildren false (cnodes (G ++ [.node b children]))
        (cnodes (taken (innerShift l) true children (l :: ls))) =
        cnodes (G ++ [.node b (taken (innerShift l) true children (l :: ls))]) := by
      simp [setLastChildren, cnodes_append, cnodes, cnode, CNode.Name, CNode.Value]
    rw [configLoop_deeper more inside (by rw [parent]; exact call children) shorter, given,
      taken_nested deeper, List.dropWhile_cons_of_pos here,
      dropWhile_weaker (within_wider deeper.le) ls]
    exact later false _ (by simp)

/-- The levels of the recursion do what the stack does. -/
theorem configLoop_reads {ls : List Str} (fine : ∀ l ∈ ls, '\n' ∉ l ∧ l.length + 1 < 2 ^ 31) {last : Str}
    (ends : '\n' ∉ last) (shift : Nat) (fresh : Bool) (F : List (Rose (Str × Str)))
    (started : fresh = false → F ≠ []) : Reads shift fresh F ls last := by
  induction size : ls.length using Nat.strong_induction_on generalizing ls shift fresh F with
  | _ n ih =>
    cases ls with
    | nil =>
      have below : Below shift last := Or.inl (by rw [findChar_none ends]; rfl)
      show configLoop shift fresh (cnodes F) last = .ok (cnodes F, last)
      exact configLoop_below below fresh _
    | cons l ls =>
      obtain ⟨oneLine, short⟩ := fine l List.mem_cons_self
      have others : ∀ m ∈ ls, '\n' ∉ m ∧ m.length + 1 < 2 ^ 31 := fun m member =>
        fine m (List.mem_cons_of_mem _ member)
      have own := fun fresh F started => @reads_own l ls last oneLine short
        (fun fresh F started => ih ls.length (by simp [← size]) others (innerShift l) fresh F started rfl)
        fresh F started
      obtain ⟨position, first⟩ := firstLine_eq oneLine short (terminated ls ++ last)
      rcases Nat.lt_trichotomy (innerShift l) shift with less | same | deeper
      · have outside : ¬ within shift l = true := by simp [within, less]
        unfold Reads taken
        rw [List.takeWhile_cons_of_neg outside, List.dropWhile_cons_of_neg outside, terminated_cons]
        exact configLoop_below (Or.inr (by rw [first]; exact less)) fresh _
      · subst same
        exact own fresh F started
      · refine reads_nested oneLine short deeper (fun F => own true F (by simp))
          (fun fresh F started => ?_) fresh F started
        have fewer := (List.dropWhile_suffix (p := within (innerShift l)) (l := ls)).length_le
        exact ih _ (by simp only [← size, List.length_cons]; omega)
          (fun m member => others m ((List.dropWhile_suffix _).subset member)) shift fresh F started rfl

/-- The tree of any text: all its lines but what is behind the last newline. -/
theorem configParse_lines {ls : List Str} (fine : ∀ l ∈ ls, '\n' ∉ l ∧ l.length + 1 < 2 ^ 31)
    {last : Str} (ends : '\n' ∉ last) :
    configParse [] (terminated ls ++ last) 0 = .ok (cnodes (build (ls.map item)), last) := by
  have all : ∀ l ∈ ls, within 0 l = true := fun l member => decide_eq_true (Nat.zero_le _)
  have read := configLoop_reads fine ends 0 true [] (by simp)
  unfold Reads taken at read
  rw [List.takeWhile_eq_self_iff.mpr all, List.dropWhile_eq_nil_iff.mpr all] at read
  exact read

/-! ### Settings on every line -/

/-- What a line that holds a colon stands for: its indentation, name and value. -/
def setting (line : Str) : Nat × Str × Str := (innerShift line, nameOf line, valueOf line)

/-- One node for each line, in the order of the lines, below the nearest earlier line that is
indented less. -/
theorem lines_nested {ls : List Str} (oneLine : ∀ l ∈ ls, '\n' ∉ l) (colon : ∀ l ∈ ls, ':' ∈ l)
    (short : ∀ l ∈ ls, l.length + 1 < 2 ^ 31) :
    ∃ top, configParse [] (terminated ls) 0 = .ok (cnodes top, []) ∧
      preorder none 0 top = outline [] (ls.map setting) := by
  have read := configParse_lines (fun l member => ⟨oneLine l member, short l member⟩)
    (List.not_mem_nil (a := '\n'))
  rw [List.append_nil] at read
  refine ⟨_, read, ?_⟩
  have labelled : ls.map item = (ls.map setting).map fun x => (x.1, some x.2) := by
    rw [List.map_map]
    refine List.map_congr_left fun l member => ?_
    simp [item, setting, colon l member]
  rw [labelled]
  exact preorder_build (ls.map setting)

theorem lines_nested_sample : ∃ top,
    configParse [] "  a: 1\n\tb:2\n  c : \"3\"\n   d:\n".toList 0 = .ok (cnodes top, []) ∧
      preorder none 0 top =
        [(("a".toList, "1".toList), none), (("b".toList, "2".toList), none),
          (("c".toList, "\"3\"".toList), some 1), (("d".toList, []), some 2)] := by
  have lines : ∀ l ∈ ["  a: 1".toList, "\tb:2".toList, "  c : \"3\"".toList, "   d:".toList],
      '\n' ∉ l ∧ ':' ∈ l ∧ l.length + 1 < 2 ^ 31 := by
    intro l member
    simp only [List.mem_cons, List.not_mem_nil, or_false] at member
    rcases member with rfl | rfl | rfl | rfl <;> decide
  obtain ⟨top, parsed, order⟩ := lines_nested (fun l member => (lines l member).1)
    (fun l member => (lines l member).2.1) (fun l member => (lines l member).2.2)
  exact ⟨top, parsed, order⟩

theorem letters_line {n : Nat} {l : Str} (member : l ∈ lines [letters n]) : '\n' ∉ l ∧ ':' ∈ l := by
  have apart : '\n' ∉ List.replicate n 'x' := not_mem_replicate (by decide) n
  have whole : l = 'a' :: ':' :: List.replicate n 'x' := by
    simpa [lines, Setting.lines, letters, Setting.line] using member
  rw [whole]
  simp [apart]

/-- The bound cannot be left out: the position behind a line of 2^31 bytes is lost. -/
theorem lines_lost : ¬ ∀ ls : List Str, (∀ l ∈ ls, '\n' ∉ l) → (∀ l ∈ ls, ':' ∈ l) →
    ∃ top, configParse [] (terminated ls) 0 = .ok (cnodes top, []) ∧
      preorder none 0 top = outline [] (ls.map setting) := by
  intro claim
  obtain ⟨top, parsed, _⟩ := claim (lines [letters (2 ^ 31)])
    (fun l member => (letters_line member).1) (fun l member => (letters_line member).2)
  obtain ⟨e, failed⟩ := @letters_fail (2 ^ 31) (Nat.le_refl _) (by omega)
  have same : terminated (lines [letters (2 ^ 31)]) = text [letters (2 ^ 31)] := rfl
  rw [same, failed] at parsed
  cases parsed

end Solusek.Config
