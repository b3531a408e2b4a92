import Solusek.Proofs.ConfigTexts

/-!
# Paths to settings

`get` cuts a path at each slash and looks for the first node of that name on each level. In a tree
whose siblings have different names it finds the node that the path leads to.
-/

namespace Solusek.Config

open Texts

/-- `path` leads from the top settings `forest` to a setting. -/
inductive At : List Setting → List Str → Setting → Prop where
  | here {forest : List Setting} {s : Setting} (member : s ∈ forest) : At forest [s.Name] s
  | inside {forest : List Setting} {s t : Setting} {path : List Str} (member : s ∈ forest)
      (below : At s.Children path t) : At forest (s.Name :: path) t

def joined (path : List Str) : Str := ['/'].intercalate path

def lookup : List Setting → List Str → Option Setting
  | _, [] => none
  | forest, [n] => forest.find? fun s => s.Name == n
  | forest, n :: m :: path =>
    (forest.find? fun s => s.Name == n).bind fun s => lookup s.Children (m :: path)

theorem Layout.find_member {w : Nat} {forest : List Setting} (layout : Layout w forest)
    {s : Setting} (member : s ∈ forest) : forest.find? (fun t => t.Name == s.Name) = some s := by
  induction layout with
  | nil => exact absurd member List.not_mem_nil
  | cons width blank name value distinct deeper inner later _ ih =>
    rcases List.mem_cons.mp member with rfl | behind
    · exact List.find?_cons_of_pos (beq_self_eq_true _)
    · have other := distinct s behind
      rw [List.find?_cons_of_neg (by simpa [Setting.Name] using other.symm)]
      exact ih behind

theorem Layout.member {w : Nat} {forest : List Setting} (layout : Layout w forest) {s : Setting}
    (member : s ∈ forest) :
    NameText s.Name ∧ ValueText s.Value ∧ ∃ w', Layout w' s.Children := by
  induction layout with
  | nil => exact absurd member List.not_mem_nil
  | cons width blank name value distinct deeper inner later _ ih =>
    rcases List.mem_cons.mp member with rfl | behind
    · exact ⟨name, value, _, inner⟩
    · exact ih behind

theorem lookup_iff {w : Nat} {forest : List Setting} (layout : Layout w forest) (path : List Str)
    (t : Setting) : lookup forest path = some t ↔ At forest path t := by
  constructor
  · intro found
    induction path generalizing w forest with
    | nil => exact absurd found (by simp [lookup])
    | cons n path ih =>
      cases path with
      | nil =>
        obtain rfl : t.Name = n := by simpa using List.find?_some found
        exact .here (List.mem_of_find?_eq_some found)
      | cons m path =>
        obtain ⟨s, first, rest⟩ := Option.bind_eq_some_iff.mp found
        obtain rfl : s.Name = n := by simpa using List.find?_some first
        have member := List.mem_of_find?_eq_some first
        obtain ⟨_, _, _, inner⟩ := layout.member member
        exact .inside member (ih inner rest)
  · intro there
    induction there generalizing w with
    | here member => exact layout.find_member member
    | @inside forest s t path member below ih =>
      obtain ⟨_, _, _, inner⟩ := layout.member member
      have rest := ih inner
      have first := layout.find_member member
      cases path with
      | nil => exact absurd rest (by simp [lookup])
      | cons m path => simp only [lookup, first, Option.bind_some, rest]

theorem nodes_eq_map (forest : List Setting) : nodes forest = forest.map Setting.node := by
  induction forest with
  | nil => rfl
  | cons s rest ih => rw [nodes, ih, List.map_cons]

theorem node_Name (s : Setting) : s.node.Name = s.Name := by
  cases s
  rfl

theorem node_Value (s : Setting) : s.node.Value = s.Value := by
  cases s
  rfl

theorem node_Children (s : Setting) : s.node.Children = nodes s.Children := by
  cases s
  rfl

theorem find_nodes (forest : List Setting) (n : Str) :
    (nodes forest).find? (fun it => it.Name == n) =
      (forest.find? fun s => s.Name == n).map Setting.node := by
  have same : (fun it : CNode => it.Name == n) ∘ Setting.node = fun s => s.Name == n := by
    funext s
    rw [Function.comp_apply, node_Name]
  rw [nodes_eq_map, List.find?_map, same]

theorem splitPath_last {n : Str} (plain : '/' ∉ n) : splitPath n = .ok (n, []) := by
  simp [splitPath, findChar_none plain, toInt]

theorem splitPath_more {n : Str} (plain : '/' ∉ n) (short : n.length + 1 < 2 ^ 31) (rest : Str) :
    splitPath (n ++ '/' :: rest) = .ok (n, rest) := by
  obtain ⟨found, left, right⟩ := substr_cut plain short rest
  unfold splitPath
  rw [if_neg found, left, right]
  rfl

theorem joined_cons (n m : Str) (path : List Str) :
    joined (n :: m :: path) = n ++ '/' :: joined (m :: path) := by
  simp [joined, List.intercalate_cons_cons]

theorem joined_some {n : Str} (nonempty : n ≠ []) (path : List Str) : 0 < (joined (n :: path)).length := by
  have bytes := List.length_pos_of_ne_nil nonempty
  cases path with
  | nil => simpa [joined] using bytes
  | cons m path =>
    rw [joined_cons]
    simp

theorem configGet_step {Children : List CNode} {path var rest : Str}
    (parted : splitPath path = .ok (var, rest)) : configGet Children path =
      match Children.find? fun it => it.Name == var with
      | none => .ok none
      | some it => if rest.length > 0 then configGet it.Children rest else .ok (some it) := by
  rw [configGet]
  split
  · rename_i e failed
    rw [parted] at failed
    exact absurd failed (by simp)
  · rename_i name left found
    rw [parted] at found
    obtain ⟨rfl, rfl⟩ := Prod.mk.inj (Except.ok.inj found)
    cases Children.find? fun it => it.Name == var with
    | none => rfl
    | some it => simp only [dite_eq_ite]

def CNode.lookup : List CNode → List Str → Option CNode
  | _, [] => none
  | Children, [n] => Children.find? fun it => it.Name == n
  | Children, n :: m :: path =>
    (Children.find? fun it => it.Name == n).bind fun it => CNode.lookup it.Children (m :: path)

theorem lookup_nodes (forest : List Setting) (path : List Str) :
    CNode.lookup (nodes forest) path = (lookup forest path).map Setting.node := by
  induction path generalizing forest with
  | nil => rfl
  | cons n path ih =>
    cases path with
    | nil => exact find_nodes forest n
    | cons m path =>
      simp only [CNode.lookup, lookup, find_nodes]
      cases forest.find? fun s => s.Name == n with
      | none => rfl
      | some s =>
        simp only [Option.map_some, Option.bind_some]
        rw [node_Children, ih]

theorem configGet_joined {path : List Str} (nonempty : path ≠ [])
    (names : ∀ n ∈ path, n ≠ [] ∧ '/' ∉ n) (short : ∀ n ∈ path.dropLast, n.length + 1 < 2 ^ 31)
    (Children : List CNode) :
    configGet Children (joined path) = .ok (CNode.lookup Children path) := by
  induction path generalizing Children with
  | nil => exact absurd rfl nonempty
  | cons n path ih =>
    obtain ⟨_, plain⟩ := names n List.mem_cons_self
    cases path with
    | nil =>
      have whole : joined [n] = n := by simp [joined]
      rw [whole, configGet_step (splitPath_last plain)]
      simp only [CNode.lookup]
      cases Children.find? fun it => it.Name == n with
      | none => rfl
      | some it => rfl
    | cons m path =>
      have more := joined_some (names m (by simp)).1 path
      have rest := ih (List.cons_ne_nil _ _) (fun k member => names k (List.mem_cons_of_mem _ member))
        (fun k member => short k (List.mem_cons_of_mem _ member))
      rw [joined_cons, configGet_step (splitPath_more plain (short n (by simp)) _)]
      simp only [CNode.lookup]
      cases Children.find? fun it => it.Name == n with
      | none => rfl
      | some it =>
        simp only [Option.bind_some]
        rw [if_pos more, rest]

end Solusek.Config
