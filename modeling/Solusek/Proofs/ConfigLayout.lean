import Solusek.Proofs.ConfigEntries

/-!
# Lines without a setting

When a line without a colon can be taken out of a configuration, or the last line be ended,
without a change to what is read.
-/

namespace Solusek.Config

open Texts Nesting

/-! ### Edits -/

/-- A change to the layout of a text: a line is taken out, the piece `last` behind the last
newline is taken out, or it gets its newline. -/
inductive Edit where
  | removeLine (pre : List Str) (l : Str) (post : List Str) (last : Str)
  | removeLast (ls : List Str) (last : Str)
  | endLast (ls : List Str) (last : Str)

namespace Edit

def linesBefore : Edit → List Str
  | removeLine pre l post _ => pre ++ l :: post
  | removeLast ls _ | endLast ls _ => ls

def linesAfter : Edit → List Str
  | removeLine pre _ post _ => pre ++ post
  | removeLast ls _ => ls
  | endLast ls last => ls ++ [last]

def last : Edit → Str
  | removeLine _ _ _ last | removeLast _ last | endLast _ last => last

def lastAfter : Edit → Str
  | removeLine _ _ _ last => last
  | removeLast _ _ | endLast _ _ => []

def before (e : Edit) : Str := terminated e.linesBefore ++ e.last

def after (e : Edit) : Str := terminated e.linesAfter ++ e.lastAfter

def removed : Edit → List Str
  | removeLine _ l _ _ => [l]
  | removeLast _ last => [last]
  | endLast _ _ => []

/-- The next setting that the change can move. -/
def next : Edit → Option Str
  | removeLine _ _ post _ => post.find? fun l => ':' ∈ l
  | removeLast _ _ => none
  | endLast _ last => some last

/-- The lines are lines, of a text that an `int` can count, and no setting is taken out. -/
structure Valid (e : Edit) : Prop where
  fine : ∀ l ∈ e.last :: e.linesBefore, '\n' ∉ l ∧ l.length + 1 < 2 ^ 31
  blank : ∀ l ∈ e.removed, ':' ∉ l

/-- No setting that the removed line closes is missed by the next one, and what gets its
newline is no setting. -/
def Harmless : Edit → Prop
  | removeLine pre l post _ => ¬ Interrupts (pre.map item) (innerShift l) (post.map item)
  | removeLast _ _ => True
  | endLast _ last => ':' ∉ last

end Edit

theorem baseNode_lines {ls : List Str} (fine : ∀ l ∈ ls, '\n' ∉ l ∧ l.length + 1 < 2 ^ 31) {last : Str}
    (ends : '\n' ∉ last) :
    baseNode (terminated ls ++ last) = .ok (cnodes (build (ls.map item))) := by
  unfold baseNode
  rw [configParse_lines fine ends]
  rfl

theorem Edit.Valid.baseNode_before {e : Edit} (valid : e.Valid) :
    baseNode e.before = .ok (cnodes (build (e.linesBefore.map item))) :=
  baseNode_lines (fun l member => valid.fine l (List.mem_cons_of_mem _ member))
    (valid.fine e.last List.mem_cons_self).1

theorem Edit.mem_linesAfter {e : Edit} {l : Str} (member : l ∈ e.linesAfter) :
    l ∈ e.last :: e.linesBefore := by
  cases e with
  | removeLine pre m post last =>
    refine List.mem_cons_of_mem _ ?_
    rcases List.mem_append.mp member with first | later
    · exact List.mem_append_left _ first
    · exact List.mem_append_right _ (List.mem_cons_of_mem _ later)
  | removeLast ls last => exact List.mem_cons_of_mem _ member
  | endLast ls last =>
    rcases List.mem_append.mp member with first | own
    · exact List.mem_cons_of_mem _ first
    · rw [List.mem_singleton.mp own]
      exact List.mem_cons_self

theorem Edit.Valid.baseNode_after {e : Edit} (valid : e.Valid) :
    baseNode e.after = .ok (cnodes (build (e.linesAfter.map item))) := by
  refine baseNode_lines (fun l member => valid.fine l (Edit.mem_linesAfter member)) ?_
  cases e with
  | removeLine pre m post last => exact (valid.fine last List.mem_cons_self).1
  | removeLast ls last => exact List.not_mem_nil
  | endLast ls last => exact List.not_mem_nil

theorem Edit.Valid.same {e : Edit} (valid : e.Valid) (harmless : e.Harmless) :
    build (e.linesBefore.map item) = build (e.linesAfter.map item) := by
  cases e with
  | removeLine pre l post last =>
    simp only [Edit.linesBefore, Edit.linesAfter, List.map_append, List.map_cons]
    rw [item_blank (valid.blank l List.mem_cons_self)]
    exact build_skip harmless
  | removeLast ls last => rfl
  | endLast ls last =>
    simp only [Edit.linesBefore, Edit.linesAfter, List.map_append, List.map_cons, List.map_nil]
    unfold build
    rw [item_blank harmless, run_snoc]
    rfl

theorem next_label (ls : List Str) : (ls.map item).findSome? (·.2) =
    (ls.find? fun l => ':' ∈ l).map fun l => (nameOf l, valueOf l) := by
  induction ls with
  | nil => rfl
  | cons l ls ih =>
    rw [List.map_cons, List.findSome?_cons, List.find?_cons, ih]
    by_cases colon : ':' ∈ l
    · simp [item_colon colon, colon]
    · simp [item_blank colon, colon]

/-- Otherwise the next setting is at another depth, or was not there before. -/
theorem Edit.Valid.moved {e : Edit} (valid : e.Valid) (harmful : ¬ e.Harmless) :
    entries (build (e.linesBefore.map item)) ≠ entries (build (e.linesAfter.map item)) ∧
    ∃ below l, e.next = some l ∧
      (below, nameOf l, valueOf l) ∈ entries (build (e.linesAfter.map item)) ∧
      (((entries (build (e.linesAfter.map item))).map (·.2.1)).Nodup →
        ∀ above a, (above, a) ∈ entries (build (e.linesBefore.map item)) → a.1 = nameOf l →
          above.length ≠ below.length) := by
  cases e with
  | removeLine pre l post last =>
    have blank := item_blank (valid.blank l List.mem_cons_self)
    simp only [Edit.linesBefore, Edit.linesAfter, List.map_append, List.map_cons, blank]
    obtain ⟨es, above, below, a, more, more', first, left, right, higher⟩ :=
      entries_skip (not_not.mp harmful)
    rw [next_label] at first
    obtain ⟨next, found, rfl⟩ := Option.map_eq_some_iff.mp first
    have labels : (entries (build (pre.map item ++ (innerShift l, none) :: post.map item))).map
        (·.2) = (entries (build (pre.map item ++ post.map item))).map (·.2) := by
      rw [labels_build, labels_build]
      simp
    refine ⟨fun same => ?_, below, next, found, ?_, fun distinct top b member name => ?_⟩
    · rw [left, right] at same
      have first := (List.cons.inj (List.append_cancel_left same)).1
      rw [(Prod.mk.inj first).1] at higher
      exact absurd higher (Nat.lt_irrefl _)
    · rw [right]
      simp
    · have names := congrArg (List.map (·.1)) labels
      simp only [List.map_map] at names
      have distinct' : ((entries (build (pre.map item ++ (innerShift l, none) :: post.map item))).map
          (·.2.1)).Nodup := by
        rw [← Function.comp_def Prod.fst, names]
        exact distinct
      have here : (above, nameOf next, valueOf next) ∈ entries (build (pre.map item ++ (innerShift l, none) ::
          post.map item)) := by
        rw [left]
        simp
      have only := List.inj_on_of_nodup_map distinct' member here name
      rw [(Prod.mk.inj only).1]
      omega
  | removeLast ls last => exact absurd trivial harmful
  | endLast ls last =>
    have colon := item_colon (not_not.mp harmful)
    obtain ⟨marks, marked⟩ := build_marked (ls.map item)
    obtain ⟨below, made, _⟩ := marked.entries_setting (innerShift last) (nameOf last, valueOf last)
    have whole : entries (build ((ls ++ [last]).map item)) =
        entries (build (ls.map item)) ++ [(below, (nameOf last, valueOf last))] := by
      unfold build
      rw [List.map_append, List.map_singleton, colon, run_snoc]
      exact made
    simp only [Edit.linesBefore, Edit.linesAfter, whole]
    refine ⟨fun same => ?_, below, last, rfl, by simp,
      fun distinct top b member name => ?_⟩
    · have sizes := congrArg List.length same
      simp at sizes
    · rw [List.map_append] at distinct
      have apart := (List.nodup_append.mp distinct).2.2
      exact absurd name (apart b.1 (List.mem_map.mpr ⟨_, member, rfl⟩) _ (by simp))

/-! ### What is read -/

mutual

theorem cnode_inj {t u : Rose (Str × Str)} (same : cnode t = cnode u) : t = u := by
  match t, u with
  | .node (n, v) children, .node (m, w) others =>
    obtain ⟨rfl, rfl, inner⟩ := CNode.mk.inj same
    rw [cnodes_inj inner]
termination_by structural t

theorem cnodes_inj {F G : List (Rose (Str × Str))} (same : cnodes F = cnodes G) : F = G := by
  match F, G with
  | [], [] => rfl
  | t :: F, u :: G =>
    obtain ⟨first, rest⟩ := List.cons.inj same
    rw [cnode_inj first, cnodes_inj rest]
termination_by structural F

end

/-- The names of the settings differ and can be parts of a path, and what the change can move
has a value. -/
structure Edit.Plain (e : Edit) : Prop where
  distinct : ((e.linesAfter.filter fun l => ':' ∈ l).map nameOf).Nodup
  names : ∀ l ∈ e.linesAfter, ':' ∈ l → nameOf l ≠ [] ∧ '/' ∉ nameOf l
  shown : ∀ l ∈ e.next, unquoted (valueOf l) ≠ []

theorem labels_lines (ls : List Str) : (entries (build (ls.map item))).map (·.2) =
    (ls.filter fun l => ':' ∈ l).map fun l => (nameOf l, valueOf l) := by
  rw [labels_build]
  induction ls with
  | nil => rfl
  | cons l ls ih =>
    by_cases colon : ':' ∈ l
    · simp only [List.map_cons, item_colon colon, List.filterMap_cons, ih,
        List.filter_cons_of_pos (p := fun l => decide (':' ∈ l)) (decide_eq_true colon)]
    · simp only [List.map_cons, item_blank colon, List.filterMap_cons, ih,
        List.filter_cons_of_neg (p := fun l => decide (':' ∈ l)) (by simpa using colon)]

theorem getFrom_ok {body path : Str} {top : List CNode} (read : baseNode body = .ok top) :
    getFrom body path = (get top path).mapError .exn := by
  unfold getFrom
  rw [read]

theorem nameOf_le (l : Str) : (nameOf l).length ≤ l.length := by
  have first := (List.takeWhile_prefix (· ≠ ':') (l := l.dropWhile isIndent)).length_le
  have behind := (List.dropWhile_suffix isIndent (l := l)).length_le
  have left (s : Str) := (List.dropWhile_suffix (· == ' ') (l := s)).length_le
  unfold nameOf stripSpaces
  have inner := left ((l.dropWhile isIndent).takeWhile (· ≠ ':'))
  have outer := left (((l.dropWhile isIndent).takeWhile (· ≠ ':')).dropWhile (· == ' ')).reverse
  rw [List.length_reverse] at outer ⊢
  omega

theorem mapError_exn_inj {x y : Except Exn Str}
    (same : x.mapError Fault.exn = y.mapError Fault.exn) : x = y := by
  cases x with
  | error d =>
    cases y with
    | error e => exact congrArg Except.error (Fault.exn.inj (Except.error.inj same))
    | ok w => cases same
  | ok v =>
    cases y with
    | error e => cases same
    | ok w => exact congrArg Except.ok (Except.ok.inj same)

/-- Settings that are plain show every change of the tree. -/
theorem Edit.Valid.changed {e : Edit} (valid : e.Valid) (harmful : ¬ e.Harmless)
    (plain : e.Plain) :
    ¬ ∀ path, getFrom e.before path = getFrom e.after path := by
  intro same
  obtain ⟨_, below, l, next, here, moved⟩ := valid.moved harmful
  have labels := labels_lines e.linesAfter
  have line {a : Str × Str} (member : a ∈ (entries (build (e.linesAfter.map item))).map (·.2)) :
      ∃ l ∈ e.linesAfter, ':' ∈ l ∧ (nameOf l, valueOf l) = a := by
    rw [labels] at member
    obtain ⟨l, kept, found⟩ := List.mem_map.mp member
    obtain ⟨inside, colon⟩ := List.mem_filter.mp kept
    exact ⟨l, inside, of_decide_eq_true colon, found⟩
  have distinct : ((entries (build (e.linesAfter.map item))).map (·.2.1)).Nodup := by
    have names := congrArg (List.map Prod.fst) labels
    rw [List.map_map, List.map_map] at names
    have whole : (entries (build (e.linesAfter.map item))).map (·.2.1) =
        (e.linesAfter.filter fun l => ':' ∈ l).map nameOf := names
    rw [whole]
    exact plain.distinct
  refine told_apart here distinct (fun a member => ?_) (plain.shown l next) (moved distinct)
    fun path => ?_
  · obtain ⟨k, kept, colon', rfl⟩ := line member
    obtain ⟨nonempty, whole⟩ := plain.names k kept colon'
    have short := (valid.fine k (Edit.mem_linesAfter kept)).2
    exact ⟨nonempty, whole, (Nat.succ_le_succ (nameOf_le k)).trans_lt short⟩
  · have answer := same path
    rw [getFrom_ok valid.baseNode_before, getFrom_ok valid.baseNode_after] at answer
    exact mapError_exn_inj answer

/-- The tree stays the same exactly if the change is harmless. Then every path reads the same, and
where the settings are plain, only then. -/
theorem layout_kept (e : Edit) (valid : e.Valid) :
    (baseNode e.before = baseNode e.after ↔ e.Harmless) ∧
      (e.Harmless → ∀ path, getFrom e.before path = getFrom e.after path) ∧
      (e.Plain →
        (∀ path, getFrom e.before path = getFrom e.after path) → e.Harmless) := by
  have kept (harmless : e.Harmless) : baseNode e.before = baseNode e.after := by
    rw [valid.baseNode_before, valid.baseNode_after, valid.same harmless]
  refine ⟨⟨fun same => ?_, kept⟩, fun harmless path => ?_, fun plain same => ?_⟩
  · by_contra harmful
    rw [valid.baseNode_before, valid.baseNode_after] at same
    exact (valid.moved harmful).1 (congrArg entries (cnodes_inj (Except.ok.inj same)))
  · unfold getFrom
    rw [kept harmless]
  · by_contra harmful
    exact valid.changed harmful plain same

/-- A comment that is indented less may be taken out behind the settings it closes. -/
theorem layout_kept_sample :
    baseNode "a:\n  b: 1\n# note\nc: 2\n".toList = baseNode "a:\n  b: 1\nc: 2\n".toList ∧
      ∀ path, getFrom "a:\n  b: 1\n# note\nc: 2\n".toList path =
        getFrom "a:\n  b: 1\nc: 2\n".toList path := by
  have valid : (Edit.removeLine ["a:".toList, "  b: 1".toList] "# note".toList ["c: 2".toList]
      []).Valid := by
    refine ⟨fun l member => ?_, fun l member => ?_⟩
    · simp only [Edit.last, Edit.linesBefore, List.cons_append, List.nil_append, List.mem_cons,
        List.not_mem_nil, or_false] at member
      rcases member with rfl | rfl | rfl | rfl | rfl <;> decide
    · rw [List.mem_singleton.mp member]
      decide
  have harmless : ¬ Interrupts (["a:".toList, "  b: 1".toList].map item)
      (innerShift "# note".toList) (["c: 2".toList].map item) := by
    rintro ⟨c, j, a, d, split, _, w, _, _, less⟩
    have member : (j, some a) ∈ ["c: 2".toList].map item := by
      rw [split]
      simp
    have width : j = 0 := congrArg Prod.fst (List.mem_singleton.mp member)
    omega
  obtain ⟨tree, read, _⟩ := layout_kept _ valid
  exact ⟨tree.mpr harmless, read harmless⟩

def nested : Edit :=
  .removeLine ["a:".toList, "  b:".toList, "    c: 1".toList] "# x".toList ["    d: 2".toList] []

theorem nested_valid : nested.Valid := by
  refine ⟨fun l member => ?_, fun l member => ?_⟩
  · simp only [nested, Edit.last, Edit.linesBefore, List.cons_append, List.nil_append,
      List.mem_cons, List.not_mem_nil, or_false] at member
    rcases member with rfl | rfl | rfl | rfl | rfl | rfl <;> decide
  · rw [List.mem_singleton.mp member]
    decide

theorem nested_interrupts : Interrupts (["a:".toList, "  b:".toList, "    c: 1".toList].map item)
    (innerShift "# x".toList) (["    d: 2".toList].map item) := by
  have here : Open (["a:".toList, "  b:".toList, "    c: 1".toList].map item ++ []) 2 := by
    refine ⟨[item "a:".toList], ("b".toList, []), [item "    c: 1".toList], by decide,
      fun x member => ?_⟩
    rw [List.mem_singleton.mp member]
    show 2 < 4
    omega
  exact ⟨[], 4, ("d".toList, "2".toList), [], by decide, by simp, 2, here, by decide, by decide⟩

def unended : Edit := .endLast [] "a: 1".toList

theorem unended_valid : unended.Valid := by
  refine ⟨fun l member => ?_, fun l member => absurd member List.not_mem_nil⟩
  rw [List.mem_singleton.mp member]
  decide

/-- Behind a comment a setting loses the one it belongs below, and a newline makes a setting of
the last line. -/
theorem layout_lost :
    (¬ ∀ path, getFrom "a:\n  b:\n    c: 1\n# x\n    d: 2\n".toList path =
      getFrom "a:\n  b:\n    c: 1\n    d: 2\n".toList path) ∧
    ¬ ∀ path, getFrom "a: 1".toList path = getFrom "a: 1\n".toList path := by
  have plain : nested.Plain := ⟨by decide, by decide, by decide⟩
  have plain' : unended.Plain := ⟨by decide, by decide, by decide⟩
  have colon : ':' ∈ "a: 1".toList := by decide
  exact ⟨nested_valid.changed (not_not.mpr nested_interrupts) plain,
    unended_valid.changed (fun harmless => harmless colon) plain'⟩

end Solusek.Config
