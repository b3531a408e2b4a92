import Solusek.Proofs.ConfigPaths

/-!
# Settings

Every path of a tree of settings that was written and read finds its value. Lines and names have to
be short enough for the `int` that a position is kept in.
-/

namespace Solusek.Config

open Texts

/-! ### Values -/

theorem unquoted_quoted (u : Str) : unquoted ('"' :: (u ++ ['"'])) = u := by
  have quotes : ('"' :: (u ++ ['"'])).head? = some '"' ∧ ('"' :: (u ++ ['"'])).getLast? = some '"' := by
    refine ⟨rfl, ?_⟩
    rw [← List.cons_append, List.getLast?_append_of_ne_nil _ (List.cons_ne_nil _ _)]
    rfl
  unfold unquoted
  rw [if_pos quotes]
  simp

theorem unquoted_plain {v : Str} (closed : v ≠ ['"']) (plain : ∀ u, v ≠ '"' :: (u ++ ['"'])) :
    unquoted v = v := by
  unfold unquoted
  split
  · rename_i quotes
    obtain ⟨first, last⟩ := quotes
    cases v with
    | nil => exact absurd first (by simp)
    | cons c t =>
      obtain rfl : c = '"' := by simpa using first
      have nonempty : t ≠ [] := fun empty => closed (by rw [empty])
      rw [List.getLast?_cons, List.getLast?_eq_some_getLast nonempty] at last
      obtain ⟨u, rfl⟩ : ∃ u, t = u ++ ['"'] := by
        refine ⟨t.dropLast, ?_⟩
        have same : t.getLast nonempty = '"' := by simpa using last
        rw [← same, List.dropLast_append_getLast]
      exact absurd rfl (plain u)
  · rfl

/-- The value that `get` is to give for a setting: without one pair of quotes around it. -/
def Shows (answer : Except Exn Str) (Value : Str) : Prop :=
  (∀ u, Value = '"' :: (u ++ ['"']) → answer = .ok u) ∧
    ((∀ u, Value ≠ '"' :: (u ++ ['"'])) → answer = .ok Value)

theorem unquoted_shows {v : Str} (closed : v ≠ ['"']) : Shows (.ok (unquoted v)) v := by
  constructor
  · rintro u rfl
    rw [unquoted_quoted]
  · intro plain
    rw [unquoted_plain closed plain]

theorem mem_lines {forest : List Setting} {s : Setting} (member : s ∈ forest) :
    s.line ∈ lines forest ∧ ∀ l ∈ lines s.Children, l ∈ lines forest := by
  induction forest with
  | nil => exact absurd member List.not_mem_nil
  | cons t rest ih =>
    have split : lines (t :: rest) = t.lines ++ lines rest := rfl
    rw [split]
    rcases List.mem_cons.mp member with rfl | behind
    · obtain ⟨indent, Name, gap, Value, Children⟩ := s
      exact ⟨List.mem_append_left _ List.mem_cons_self,
        fun l inside => List.mem_append_left _ (List.mem_cons_of_mem _ inside)⟩
    · obtain ⟨own, inner⟩ := ih behind
      exact ⟨List.mem_append_right _ own, fun l inside => List.mem_append_right _ (inner l inside)⟩

theorem Name_le_line (s : Setting) : s.Name.length ≤ s.line.length := by
  cases s
  simp only [Setting.Name, Setting.line, List.length_append]
  omega

theorem At.names {w : Nat} {forest : List Setting} (layout : Layout w forest)
    (short : ∀ l ∈ lines forest, l.length + 1 < 2 ^ 31) {path : List Str} {s : Setting}
    (there : At forest path s) :
    path ≠ [] ∧ (∀ n ∈ path, n ≠ [] ∧ '/' ∉ n ∧ n.length + 1 < 2 ^ 31) ∧ ValueText s.Value := by
  have name {forest : List Setting} {w : Nat} (layout : Layout w forest)
      (short : ∀ l ∈ lines forest, l.length + 1 < 2 ^ 31) {s : Setting} (member : s ∈ forest) :
      s.Name ≠ [] ∧ '/' ∉ s.Name ∧ s.Name.length + 1 < 2 ^ 31 := by
    obtain ⟨text, _⟩ := layout.member member
    have bound := short _ (mem_lines member).1
    have size := Name_le_line s
    exact ⟨text.nonempty, text.plain.2.1, by omega⟩
  induction there generalizing w with
  | here member =>
    refine ⟨List.cons_ne_nil _ _, fun n inside => ?_, (layout.member member).2.1⟩
    rw [List.mem_singleton.mp inside]
    exact name layout short member
  | inside member below ih =>
    obtain ⟨_, _, _, inner⟩ := layout.member member
    obtain ⟨_, names, value⟩ := ih inner fun l inside => short l ((mem_lines member).2 l inside)
    refine ⟨List.cons_ne_nil _ _, fun n inside => ?_, value⟩
    rcases List.mem_cons.mp inside with rfl | later
    · exact name layout short member
    · exact names n later

/-- Every setting that is written is found under its path, and nothing else is. -/
theorem settings_read {forest : List Setting} (layout : Layout 0 forest)
    (short : ∀ l ∈ lines forest, l.length + 1 < 2 ^ 31) :
    ∃ top, configParse [] (text forest) 0 = .ok (top, []) ∧
      (∀ path s, At forest path s → Shows (get top (joined path)) s.Value) ∧
      ∀ path, path ≠ [] → (∀ n ∈ path, n ≠ [] ∧ '/' ∉ n) →
        (∀ n ∈ path.dropLast, n.length + 1 < 2 ^ 31) → (∀ s, ¬ At forest path s) →
        get top (joined path) = .ok [] := by
  refine ⟨nodes forest, configParse_text layout short, ?_, ?_⟩
  · intro path s there
    obtain ⟨nonempty, names, value⟩ := there.names layout short
    have found := configGet_joined nonempty (fun n member => ⟨(names n member).1, (names n member).2.1⟩)
      (fun n member => (names n (List.mem_of_mem_dropLast member)).2.2) (nodes forest)
    rw [lookup_nodes, (lookup_iff layout path s).mpr there] at found
    unfold get
    rw [found]
    show Shows (.ok (unquoted s.node.Value)) s.Value
    rw [node_Value]
    exact unquoted_shows value.closed
  · intro path nonempty names bound nowhere
    have found := configGet_joined nonempty names bound (nodes forest)
    rw [lookup_nodes] at found
    cases looked : lookup forest path with
    | some s => exact absurd ((lookup_iff layout path s).mp looked) (nowhere s)
    | none =>
      rw [looked] at found
      unfold get
      rw [found]
      rfl

/-! ### Inputs -/

def sample : List Setting :=
  [.mk [] "db".toList 1 "\"x\"".toList [.mk "\t ".toList "host".toList 2 "h:1".toList []],
    .mk [] "n".toList 0 [] []]

theorem sample_layout : Layout 0 sample := by
  have db : NameText "db".toList :=
    ⟨by decide, by decide, by simp [isIndent], by simp [isIndent]⟩
  have host : NameText "host".toList :=
    ⟨by decide, by decide, by simp [isIndent], by simp [isIndent]⟩
  have n : NameText "n".toList := ⟨by decide, by decide, by simp [isIndent], by simp [isIndent]⟩
  have quoted : ValueText "\"x\"".toList := ⟨by decide, by simp, by simp, by decide⟩
  have address : ValueText "h:1".toList := ⟨by decide, by simp, by simp, by decide⟩
  have blank : ValueText [] := ⟨by decide, by simp, by simp, by decide⟩
  have inner : Layout 2 [.mk "\t ".toList "host".toList 2 "h:1".toList []] :=
    .cons rfl (by simp [isIndent]) host address (by simp) (Nat.lt_succ_self 2) (.nil _) (.nil _)
  have last : Layout 0 [.mk [] "n".toList 0 [] []] :=
    .cons rfl (by simp) n blank (by simp) Nat.one_pos (.nil _) (.nil _)
  exact .cons rfl (by simp) db quoted (by simp [Setting.Name]) Nat.two_pos inner last

theorem settings_read_sample : ∃ top,
    configParse [] "db: \"x\"\n\t host:  h:1\nn:\n".toList 0 = .ok (top, []) ∧
      get top "db".toList = .ok "x".toList ∧ get top "db/host".toList = .ok "h:1".toList := by
  have short : ∀ l ∈ lines sample, l.length + 1 < 2 ^ 31 := by
    show ∀ l ∈ ["db: \"x\"", "\t host:  h:1", "n:"].map String.toList, l.length + 1 < 2 ^ 31
    simp
  obtain ⟨top, parsed, shown, _⟩ := settings_read sample_layout short
  have db : At sample ["db".toList] (.mk [] "db".toList 1 "\"x\"".toList
      [.mk "\t ".toList "host".toList 2 "h:1".toList []]) := .here List.mem_cons_self
  have host : At sample ["db".toList, "host".toList]
      (.mk "\t ".toList "host".toList 2 "h:1".toList []) :=
    .inside List.mem_cons_self (.here List.mem_cons_self)
  refine ⟨top, parsed, (shown _ _ db).1 _ rfl, (shown _ _ host).2 fun u same => ?_⟩
  exact absurd (List.cons.inj same).1 (by decide)

/-! ### What is too long -/

/-- A position past 2^31 turns negative, and no `substr` can start behind it. -/
theorem substr_wrapped {l tail : Str} {c : Char} (absent : c ∉ l) (long : 2 ^ 31 ≤ l.length)
    (bound : (l ++ c :: tail).length < 2 ^ 32) :
    toInt (findChar (l ++ c :: tail) c) < -1 ∧
      substr (l ++ c :: tail) (toSize (intSucc (toInt (findChar (l ++ c :: tail) c)))) =
        .error .outOfRange := by
  have size : (l ++ c :: tail).length = l.length + 1 + tail.length := by
    simp only [List.length_append, List.length_cons]
    omega
  have position : toInt (findChar (l ++ c :: tail) c) = l.length - 2 ^ 32 := by
    rw [findChar_append absent]
    exact sizeToInt_wrapped long (by omega)
  have next : intSucc ((l.length : Int) - 2 ^ 32) = l.length - 2 ^ 32 + 1 :=
    Int.bmod_eq_of_le (by omega) (by omega)
  have outside : (l ++ c :: tail).length < toSize ((l.length : Int) - 2 ^ 32 + 1) := by
    unfold toSize
    omega
  rw [position, next]
  refine ⟨by omega, ?_⟩
  unfold substr
  rw [if_pos outside]

theorem configLoop_long {l tail : Str} (oneLine : '\n' ∉ l) (long : 2 ^ 31 ≤ l.length)
    (bound : (l ++ '\n' :: tail).length < 2 ^ 32) (fresh : Bool) (Children : List CNode) :
    ∃ e, configLoop (innerShift (l ++ '\n' :: tail)) fresh Children (l ++ '\n' :: tail) =
      .error (.exn e) := by
  obtain ⟨negative, failed⟩ := substr_wrapped oneLine long bound
  have low := (toInt_range (findChar (l ++ '\n' :: tail) '\n')).1
  have whole : firstLine (l ++ '\n' :: tail) = l ++ '\n' :: tail := by
    apply List.take_of_length_le
    unfold toSize
    omega
  rw [configLoop, dif_neg (by omega), whole, dif_neg (Nat.lt_irrefl _), if_neg (Nat.lt_irrefl _)]
  split
  · exact ⟨_, rfl⟩
  · split
    · exact ⟨_, rfl⟩
    · rename_i rest cut
      rw [failed] at cut
      exact absurd cut (by simp)

def letters (n : Nat) : Setting := .mk [] "a".toList 0 (List.replicate n 'x') []

theorem letters_layout (n : Nat) : Layout 0 [letters n] := by
  have name : NameText "a".toList := ⟨by decide, by decide, by simp [isIndent], by simp [isIndent]⟩
  have value : ValueText (List.replicate n 'x') := by
    obtain ⟨start, last⟩ := ends_replicate (P := fun c => (c == ' ') = false) (c := 'x') rfl n
    refine ⟨not_mem_replicate (by decide) n, start, last, fun quote => ?_⟩
    have apart : '"' ∉ List.replicate n 'x' := not_mem_replicate (by decide) n
    exact apart (quote ▸ List.mem_cons_self)
  exact .cons rfl (by simp) name value (by simp) Nat.one_pos (.nil _) (.nil _)

theorem letters_fail {n : Nat} (long : 2 ^ 31 ≤ n) (bound : n + 3 < 2 ^ 32) :
    ∃ e, configParse [] (text [letters n]) 0 = .error (.exn e) := by
  have whole : text [letters n] = ('a' :: ':' :: List.replicate n 'x') ++ '\n' :: [] := by
    simp [text, lines, Setting.lines, letters, Setting.line]
  have oneLine : '\n' ∉ 'a' :: ':' :: List.replicate n 'x' := by
    have left : '\n' ∉ List.replicate n 'x' := not_mem_replicate (by decide) n
    simp [left]
  have size : ('a' :: ':' :: List.replicate n 'x').length = n + 2 := by
    simp only [List.length_cons, List.length_replicate]
  have total : (('a' :: ':' :: List.replicate n 'x') ++ '\n' :: []).length < 2 ^ 32 := by
    rw [List.length_append, size]
    exact bound
  rw [whole]
  exact configLoop_long oneLine (by omega) total true []

theorem get_long {n rest : Str} (plain : '/' ∉ n) (long : 2 ^ 31 ≤ n.length)
    (bound : (n ++ '/' :: rest).length < 2 ^ 32) (top : List CNode) :
    get top (n ++ '/' :: rest) = .error .outOfRange := by
  obtain ⟨negative, failed⟩ := substr_wrapped plain long bound
  have parted : splitPath (n ++ '/' :: rest) = .error .outOfRange := by
    unfold splitPath
    simp only
    rw [if_neg (by omega), failed]
    rfl
  have found : configGet top (n ++ '/' :: rest) = .error .outOfRange := by
    rw [configGet]
    split
    · rename_i e other
      rw [parted] at other
      rw [Except.error.inj other]
    · rename_i var left other
      rw [parted] at other
      exact absurd other (by simp)
  unfold get
  rw [found]

theorem At.some {forest : List Setting} {path : List Str} {s : Setting}
    (there : At forest path s) : forest ≠ [] := by
  cases there with
  | here member => exact List.ne_nil_of_mem member
  | inside member _ => exact List.ne_nil_of_mem member

/-- Neither bound can be left out: a line and a name of a path of 2^31 bytes. -/
theorem settings_lost :
    (¬ ∀ forest : List Setting, Layout 0 forest →
      ∃ top, configParse [] (text forest) 0 = .ok (top, [])) ∧
    ¬ ∀ forest : List Setting, Layout 0 forest → (∀ l ∈ lines forest, l.length + 1 < 2 ^ 31) →
      ∃ top, configParse [] (text forest) 0 = .ok (top, []) ∧
        ∀ path, path ≠ [] → (∀ n ∈ path, n ≠ [] ∧ '/' ∉ n) → (∀ s, ¬ At forest path s) →
          get top (joined path) = .ok [] := by
  constructor
  · intro claim
    obtain ⟨top, parsed⟩ := claim [letters (2 ^ 31)] (letters_layout _)
    obtain ⟨e, failed⟩ := @letters_fail (2 ^ 31) (Nat.le_refl _) (by omega)
    rw [parsed] at failed
    exact absurd failed (by simp)
  · intro claim
    obtain ⟨top, _, hidden⟩ := claim [] (.nil 0) fun l member => absurd member List.not_mem_nil
    have long : (List.replicate (2 ^ 31) 'x').length = 2 ^ 31 := List.length_replicate
    have plain : '/' ∉ List.replicate (2 ^ 31) 'x' := not_mem_replicate (by decide) _
    have nonempty : List.replicate (2 ^ 31) 'x' ≠ [] := by
      intro empty
      rw [empty, List.length_nil] at long
      omega
    have names : ∀ n ∈ [List.replicate (2 ^ 31) 'x', "y".toList], n ≠ [] ∧ '/' ∉ n := by
      intro n member
      rcases List.mem_cons.mp member with rfl | later
      · exact ⟨nonempty, plain⟩
      · rw [List.mem_singleton.mp later]
        decide
    have size : (List.replicate (2 ^ 31) 'x' ++ '/' :: "y".toList).length < 2 ^ 32 := by
      rw [List.length_append, long]
      decide
    have answer := hidden [List.replicate (2 ^ 31) 'x', "y".toList] (List.cons_ne_nil _ _) names
      fun s there => there.some rfl
    have whole : joined ["y".toList] = "y".toList := rfl
    rw [joined_cons, whole, get_long plain (Nat.le_of_eq long.symm) size] at answer
    exact absurd answer (by simp)

end Solusek.Config
