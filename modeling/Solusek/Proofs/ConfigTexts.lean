import Solusek.Model.Config
import Solusek.Proofs.Strings

/-!
# The text of a tree of settings

A tree of settings written with one line for each node is read back node by node, whatever the
widths of its indentation.
-/

namespace Solusek.Config

open Texts

/-- A setting and how its line is written: the indentation and the spaces behind the colon. -/
inductive Setting where
  | mk (indent Name : Str) (gap : Nat) (Value : Str) (Children : List Setting)

namespace Setting

def Name : Setting → Str
  | mk _ Name _ _ _ => Name

def Value : Setting → Str
  | mk _ _ _ Value _ => Value

def Children : Setting → List Setting
  | mk _ _ _ _ Children => Children

def line : Setting → Str
  | mk indent Name gap Value _ => indent ++ Name ++ ':' :: (List.replicate gap ' ' ++ Value)

end Setting

mutual

def Setting.lines : Setting → List Str
  | .mk indent Name gap Value Children =>
    (Setting.mk indent Name gap Value Children).line :: lines Children
termination_by structural s => s

def lines : List Setting → List Str
  | [] => []
  | s :: rest => s.lines ++ lines rest
termination_by structural l => l

end

mutual

def Setting.node : Setting → CNode
  | .mk _ Name _ Value Children => .mk Name Value (nodes Children)
termination_by structural s => s

def nodes : List Setting → List CNode
  | [] => []
  | s :: rest => s.node :: nodes rest
termination_by structural l => l

end

def text (forest : List Setting) : Str := (lines forest).flatMap (· ++ ['\n'])

structure NameText (s : Str) : Prop where
  nonempty : s ≠ []
  plain : ':' ∉ s ∧ '/' ∉ s ∧ '\n' ∉ s
  start : ∀ c ∈ s.head?, isIndent c = false
  last : ∀ c ∈ s.getLast?, isIndent c = false

structure ValueText (s : Str) : Prop where
  oneLine : '\n' ∉ s
  start : ∀ c ∈ s.head?, (c == ' ') = false
  last : ∀ c ∈ s.getLast?, (c == ' ') = false
  closed : s ≠ ['"']

/-- Settings at indentation `w`: the names of siblings are distinct, and the children of each
are indented further, by a width of their own. -/
inductive Layout : Nat → List Setting → Prop where
  | nil (w : Nat) : Layout w []
  | cons {w w' gap : Nat} {indent Name Value : Str} {Children rest : List Setting}
      (width : indent.length = w) (blank : ∀ c ∈ indent, isIndent c = true)
      (name : NameText Name) (value : ValueText Value)
      (distinct : ∀ s ∈ rest, s.Name ≠ Name) (deeper : w < w')
      (inner : Layout w' Children) (later : Layout w rest) :
      Layout w (.mk indent Name gap Value Children :: rest)

/-! ### One line -/

theorem stripSpaces_padded {s : Str} (n : Nat) (start : ∀ c ∈ s.head?, (c == ' ') = false)
    (last : ∀ c ∈ s.getLast?, (c == ' ') = false) :
    stripSpaces (List.replicate n ' ' ++ s) = s := by
  have spaces : ∀ c ∈ List.replicate n ' ', (c == ' ') = true := by
    intro c member
    rw [List.eq_of_mem_replicate member]
    rfl
  have padded := @strip_padded Char (· == ' ') (List.replicate n ' ') s [] spaces start last (by simp)
  rw [List.append_nil] at padded
  exact padded

theorem stripSpaces_name {s : Str} (name : NameText s) : stripSpaces s = s := by
  have solid {c : Char} (other : isIndent c = false) : (c == ' ') = false := by
    unfold isIndent at other
    exact (Bool.or_eq_false_iff.mp other).1
  exact stripSpaces_padded 0 (fun c first => solid (name.start c first))
    fun c last => solid (name.last c last)

theorem lineNode_cut {name : Str} (plain : ':' ∉ name) (short : name.length + 1 < 2 ^ 31)
    (value : Str) : lineNode (name ++ ':' :: value) =
      .ok (some (.mk (stripSpaces name) (stripSpaces value) [])) := by
  obtain ⟨found, left, right⟩ := substr_cut plain short value
  unfold lineNode
  rw [if_neg found, left, right]
  rfl

theorem lineNode_eq {Name Value : Str} (name : NameText Name) (value : ValueText Value) (gap : Nat)
    (short : Name.length + 1 < 2 ^ 31) :
    lineNode (Name ++ ':' :: (List.replicate gap ' ' ++ Value)) = .ok (some (.mk Name Value [])) := by
  rw [lineNode_cut name.plain.1 (by omega), stripSpaces_name name,
    stripSpaces_padded gap value.start value.last]

/-! ### The first line of a text -/

theorem firstLine_eq {l : Str} (oneLine : '\n' ∉ l) (short : l.length + 1 < 2 ^ 31) (rest : Str) :
    toInt (findChar (l ++ '\n' :: rest) '\n') = l.length ∧ firstLine (l ++ '\n' :: rest) = l := by
  have position : toInt (findChar (l ++ '\n' :: rest) '\n') = l.length := by
    rw [findChar_append oneLine]
    exact sizeToInt_small (by omega)
  refine ⟨position, ?_⟩
  unfold firstLine
  rw [position, toSize_natCast (by omega), List.take_left']
  rfl

theorem indent_split {indent Name : Str} (blank : ∀ c ∈ indent, isIndent c = true)
    (name : NameText Name) (tail : Str) :
    innerShift (indent ++ Name ++ tail) = indent.length ∧
      (indent ++ Name ++ tail).dropWhile isIndent = Name ++ tail := by
  obtain ⟨c, t, rfl⟩ := List.exists_cons_of_ne_nil name.nonempty
  have solid : isIndent c = false := name.start c rfl
  have visible : ¬ isIndent c = true := by simp [solid]
  unfold innerShift
  rw [List.append_assoc, List.takeWhile_append_of_pos blank, List.dropWhile_append_of_pos blank,
    List.cons_append, List.takeWhile_cons_of_neg visible, List.dropWhile_cons_of_neg visible,
    List.append_nil]
  exact ⟨rfl, rfl⟩

theorem line_oneLine {indent Name Value : Str} (blank : ∀ c ∈ indent, isIndent c = true)
    (name : NameText Name) (value : ValueText Value) (gap : Nat) (Inner : List Setting) :
    '\n' ∉ (Setting.mk indent Name gap Value Inner).line := by
  have left : '\n' ∉ indent := fun member => absurd (blank _ member) (by decide)
  have spaces : '\n' ∉ List.replicate gap ' ' := not_mem_replicate (by decide) gap
  have middle := name.plain.2.2
  have right := value.oneLine
  simp [Setting.line, left, spaces, middle, right]

/-! ### Steps of the loop -/

/-- The text goes on with a line indented less than `w`, or it is at its end. -/
def Below (w : Nat) (body : Str) : Prop :=
  toInt (findChar body '\n') = -1 ∨ innerShift (firstLine body) < w

theorem Below.mono {w w' : Nat} {body : Str} (below : Below w body) (wider : w ≤ w') :
    Below w' body :=
  below.imp_right fun less => Nat.lt_of_lt_of_le less wider

theorem configLoop_below {w : Nat} {body : Str} (below : Below w body) (fresh : Bool)
    (Children : List CNode) : configLoop w fresh Children body = .ok (Children, body) := by
  rw [configLoop]
  rcases below with last | less
  · rw [dif_pos last]
  · have above : ¬ innerShift (firstLine body) > w := Nat.not_lt.mpr (Nat.le_of_lt less)
    rw [dif_neg above, if_pos less]
    split <;> rfl

theorem configLoop_same {w : Nat} {body rest : Str} {node : Option CNode}
    (more : toInt (findChar body '\n') ≠ -1) (same : innerShift (firstLine body) = w)
    (line : lineNode ((firstLine body).dropWhile isIndent) = .ok node)
    (cut : substr body (toSize (intSucc (toInt (findChar body '\n')))) = .ok rest) (fresh : Bool)
    (Children : List CNode) : configLoop w fresh Children body =
      configLoop w (fresh && node.isNone) (Children ++ node.toList) rest := by
  rw [configLoop, dif_neg more, same, dif_neg (Nat.lt_irrefl w), if_neg (Nat.lt_irrefl w), line]
  simp only
  split
  · rename_i e failed
    rw [cut] at failed
    exact absurd failed (by simp)
  · rename_i left found
    rw [cut] at found
    rw [Except.ok.inj found]

theorem configLoop_cut {l : Str} {node : Option CNode} (oneLine : '\n' ∉ l)
    (short : l.length + 1 < 2 ^ 31) (line : lineNode (l.dropWhile isIndent) = .ok node) (fresh : Bool)
    (Children : List CNode) (rest : Str) :
    configLoop (innerShift l) fresh Children (l ++ '\n' :: rest) =
      configLoop (innerShift l) (fresh && node.isNone) (Children ++ node.toList) rest := by
  obtain ⟨position, first⟩ := firstLine_eq oneLine short rest
  have more : toInt (findChar (l ++ '\n' :: rest) '\n') ≠ -1 := by omega
  have cut : substr (l ++ '\n' :: rest)
      (toSize (intSucc (toInt (findChar (l ++ '\n' :: rest) '\n')))) = .ok rest := by
    rw [position, intSucc_small short, toSize_natCast (by omega), substr_behind]
  exact configLoop_same more (congrArg innerShift first) (by rw [first, line]) cut fresh Children

theorem configLoop_line {indent Name Value : Str} (blank : ∀ c ∈ indent, isIndent c = true)
    (name : NameText Name) (value : ValueText Value) {gap : Nat} {Inner : List Setting}
    (short : (Setting.mk indent Name gap Value Inner).line.length + 1 < 2 ^ 31) (fresh : Bool)
    (Children : List CNode) (rest : Str) :
    configLoop indent.length fresh Children
      ((Setting.mk indent Name gap Value Inner).line ++ '\n' :: rest) =
      configLoop indent.length false (Children ++ [.mk Name Value []]) rest := by
  obtain ⟨shift, stripped⟩ := indent_split blank name (':' :: (List.replicate gap ' ' ++ Value))
  have bytes : (Setting.mk indent Name gap Value Inner).line.length =
      indent.length + Name.length + 1 + gap + Value.length := by
    simp only [Setting.line, List.length_append, List.length_cons, List.length_replicate]
    omega
  have line : lineNode ((Setting.mk indent Name gap Value Inner).line.dropWhile isIndent) =
      .ok (some (.mk Name Value [])) := by
    rw [Setting.line, stripped]
    exact lineNode_eq name value gap (by omega)
  have width : innerShift (Setting.mk indent Name gap Value Inner).line = indent.length := shift
  have read := configLoop_cut (line_oneLine blank name value gap Inner) short line fresh Children rest
  rw [width] at read
  rw [read]
  simp

theorem configLoop_deeper {w : Nat} {body rest : Str} {inner : List CNode} {fresh : Bool}
    {Children : List CNode} (more : toInt (findChar body '\n') ≠ -1)
    (deeper : w < innerShift (firstLine body))
    (read : configLoop (innerShift (firstLine body)) true (lastChildren fresh Children) body =
      .ok (inner, rest)) (shorter : rest.length < body.length) :
    configLoop w fresh Children body =
      configLoop w fresh (setLastChildren fresh Children inner) rest := by
  rw [configLoop, dif_neg more, dif_pos deeper, read]
  simp only [dif_pos shorter]

/-! ### Whole trees -/

theorem text_cons (indent Name Value : Str) (gap : Nat) (Inner rest : List Setting) (tail : Str) :
    text (.mk indent Name gap Value Inner :: rest) ++ tail =
      (Setting.mk indent Name gap Value Inner).line ++ '\n' :: (text Inner ++ (text rest ++ tail)) := by
  simp [text, lines, Setting.lines]

theorem Layout.first_line {w : Nat} {s : Setting} {rest : List Setting} (layout : Layout w (s :: rest))
    (short : ∀ l ∈ lines (s :: rest), l.length + 1 < 2 ^ 31) (tail : Str) :
    toInt (findChar (text (s :: rest) ++ tail) '\n') ≠ -1 ∧
      innerShift (firstLine (text (s :: rest) ++ tail)) = w := by
  cases layout with
  | @cons w w' gap indent Name Value Inner rest width blank name value distinct deeper inner later =>
    have bound : (Setting.mk indent Name gap Value Inner).line.length + 1 < 2 ^ 31 :=
      short _ (by simp [lines, Setting.lines])
    obtain ⟨position, first⟩ := firstLine_eq (line_oneLine blank name value gap Inner) bound
      (text Inner ++ (text rest ++ tail))
    obtain ⟨shift, _⟩ := indent_split blank name (':' :: (List.replicate gap ' ' ++ Value))
    rw [text_cons, position, first]
    refine ⟨by omega, ?_⟩
    rw [← width]
    exact shift

theorem Layout.text_below {w w' : Nat} {forest : List Setting} (layout : Layout w forest)
    (short : ∀ l ∈ lines forest, l.length + 1 < 2 ^ 31) (deeper : w < w') {tail : Str}
    (ends : Below (w + 1) tail) : Below w' (text forest ++ tail) := by
  cases forest with
  | nil => exact ends.mono deeper
  | cons s rest =>
    right
    rw [(layout.first_line short tail).2]
    exact deeper

/-- The loop makes one node of each setting and goes on behind them. -/
theorem configLoop_layout {w : Nat} {forest : List Setting} (layout : Layout w forest)
    (short : ∀ l ∈ lines forest, l.length + 1 < 2 ^ 31) (fresh : Bool) (Children : List CNode)
    {tail : Str} (ends : Below (w + 1) tail) :
    configLoop w fresh Children (text forest ++ tail) =
      configLoop w (fresh && forest.isEmpty) (Children ++ nodes forest) tail := by
  induction layout generalizing fresh Children tail with
  | nil w => simp [text, lines, nodes]
  | @cons w w' gap indent Name Value Inner rest width blank name value distinct deeper inner later
      innerIh laterIh =>
    subst width
    have own : ∀ l ∈ lines Inner, l.length + 1 < 2 ^ 31 := fun l member => short l (by
      simp [lines, Setting.lines, member])
    have others : ∀ l ∈ lines rest, l.length + 1 < 2 ^ 31 := fun l member => short l (by
      simp [lines, member])
    have bound : (Setting.mk indent Name gap Value Inner).line.length + 1 < 2 ^ 31 :=
      short _ (by simp [lines, Setting.lines])
    have after := later.text_below others deeper ends
    rw [text_cons, configLoop_line blank name value bound]
    -- What the nested call, if there is one, makes of the children.
    have nested : configLoop indent.length false (Children ++ [.mk Name Value []])
        (text Inner ++ (text rest ++ tail)) =
        configLoop indent.length false (Children ++ [.mk Name Value (nodes Inner)])
          (text rest ++ tail) := by
      cases Inner with
      | nil => rfl
      | cons kid kids =>
        obtain ⟨more, shift⟩ := inner.first_line own (text rest ++ tail)
        have read := innerIh own true [] (after.mono (Nat.le_succ w'))
        rw [List.isEmpty_cons, Bool.and_false, List.nil_append, configLoop_below after] at read
        have shorter : (text rest ++ tail).length <
            (text (kid :: kids) ++ (text rest ++ tail)).length := by
          obtain ⟨i, n, g, v, c⟩ := kid
          rw [text_cons]
          simp only [List.length_append, List.length_cons]
          omega
        have childless : lastChildren false (Children ++ [.mk Name Value []]) = [] := by
          simp [lastChildren, CNode.Children]
        rw [← shift, ← childless] at read
        rw [configLoop_deeper more (by omega) read shorter]
        simp [setLastChildren, CNode.Name, CNode.Value]
    rw [nested, laterIh others false _ ends]
    simp [nodes, Setting.node]

theorem configParse_text {forest : List Setting} (layout : Layout 0 forest)
    (short : ∀ l ∈ lines forest, l.length + 1 < 2 ^ 31) :
    configParse [] (text forest) 0 = .ok (nodes forest, []) := by
  have ends {w : Nat} : Below w [] := Or.inl rfl
  have read := configLoop_layout layout short true [] (@ends 1)
  rw [List.append_nil, configLoop_below ends, List.nil_append] at read
  exact read

end Solusek.Config
