import Solusek.Proofs.ConfigTree

/-!
# Entries of a configuration

A path of names finds the first node on each level, so two trees that differ are told apart by a
path as long as no two nodes of one level have the same name.
-/

namespace Solusek.Config

open Texts Nesting

/-! ### Paths of a tree -/

theorem cnodes_eq_map (F : List (Rose (Str × Str))) : cnodes F = F.map cnode := by
  induction F with
  | nil => rfl
  | cons t F ih => rw [cnodes, ih, List.map_cons]

theorem mem_cnodes {F : List (Rose (Str × Str))} {it : CNode} (member : it ∈ cnodes F) :
    ∃ a children, .node a children ∈ F ∧ it = .mk a.1 a.2 (cnodes children) := by
  rw [cnodes_eq_map] at member
  obtain ⟨⟨a, children⟩, inside, rfl⟩ := List.mem_map.mp member
  exact ⟨a, children, inside, rfl⟩

def namesOf (above : List (Str × Str)) (a : Str × Str) : List Str := above.map (·.1) ++ [a.1]

theorem entry_of_lookup {F : List (Rose (Str × Str))} {path : List Str} {it : CNode}
    (found : CNode.lookup (cnodes F) path = some it) :
    ∃ above a, (above, a) ∈ entries F ∧ namesOf above a = path := by
  induction path generalizing F with
  | nil => exact absurd found (by simp [CNode.lookup])
  | cons n path ih =>
    cases path with
    | nil =>
      obtain ⟨a, children, inside, rfl⟩ := mem_cnodes (List.mem_of_find?_eq_some found)
      have name : a.1 = n := by simpa [CNode.Name] using List.find?_some found
      exact ⟨[], a, mem_entries.mpr ⟨a, children, inside, by simp⟩, by simp [namesOf, name]⟩
    | cons m path =>
      obtain ⟨top, first, rest⟩ := Option.bind_eq_some_iff.mp found
      obtain ⟨b, children, inside, rfl⟩ := mem_cnodes (List.mem_of_find?_eq_some first)
      have name : b.1 = n := by simpa [CNode.Name] using List.find?_some first
      obtain ⟨above, a, member, same⟩ := ih rest
      refine ⟨b :: above, a, mem_entries.mpr ⟨b, children, inside, Or.inr ⟨above, rfl, member⟩⟩, ?_⟩
      simp [namesOf, ← same, name]

theorem entries_split (G H : List (Rose (Str × Str))) (b : Str × Str)
    (children : List (Rose (Str × Str))) :
    (entries (G ++ .node b children :: H)).map (·.2.1) =
      (entries G).map (·.2.1) ++ b.1 :: ((entries children).map (·.2.1) ++
        (entries H).map (·.2.1)) := by
  simp [entries_append, entries, Rose.entries, Function.comp_def]

theorem find_distinct {G H : List (Rose (Str × Str))} {b : Str × Str}
    {children : List (Rose (Str × Str))}
    (distinct : ((entries (G ++ .node b children :: H)).map (·.2.1)).Nodup) :
    (cnodes (G ++ .node b children :: H)).find? (fun it => it.Name == b.1) =
      some (.mk b.1 b.2 (cnodes children)) := by
  rw [entries_split] at distinct
  have apart := (List.nodup_append.mp distinct).2.2
  have absent : (cnodes G).find? (fun it => it.Name == b.1) = none := by
    refine List.find?_eq_none.mpr fun it member same => ?_
    obtain ⟨a, inner, inside, rfl⟩ := mem_cnodes member
    have entry : ([], a) ∈ entries G := mem_entries.mpr ⟨a, inner, inside, by simp⟩
    have name : a.1 = b.1 := by simpa [CNode.Name] using same
    exact apart a.1 (List.mem_map.mpr ⟨([], a), entry, rfl⟩) b.1 List.mem_cons_self name
  rw [cnodes_append, List.find?_append, absent, Option.none_or, cnodes, cnode]
  simp [CNode.Name]

/-- Where all names differ, every node is found under its path. -/
theorem lookup_of_entry {F : List (Rose (Str × Str))} {above : List (Str × Str)} {a : Str × Str}
    (member : (above, a) ∈ entries F) (distinct : ((entries F).map (·.2.1)).Nodup) :
    ∃ it, CNode.lookup (cnodes F) (namesOf above a) = some it ∧ it.Value = a.2 := by
  induction above generalizing F with
  | nil =>
    obtain ⟨b, children, inside, ⟨_, rfl⟩ | ⟨rest, split, _⟩⟩ := mem_entries.mp member
    · obtain ⟨G, H, rfl⟩ := List.append_of_mem inside
      exact ⟨_, find_distinct distinct, rfl⟩
    · cases split
  | cons c above ih =>
    obtain ⟨b, children, inside, ⟨empty, _⟩ | ⟨rest, split, below⟩⟩ := mem_entries.mp member
    · exact absurd empty (List.cons_ne_nil _ _)
    obtain ⟨rfl, rfl⟩ := List.cons.inj split
    obtain ⟨G, H, rfl⟩ := List.append_of_mem inside
    have found := find_distinct distinct
    rw [entries_split] at distinct
    have inner := (List.nodup_append.mp (List.nodup_cons.mp (List.nodup_append.mp distinct).2.1).2).1
    obtain ⟨it, here, value⟩ := ih below inner
    have more : ∃ m path, namesOf above a = m :: path := by
      cases above with
      | nil => exact ⟨_, _, rfl⟩
      | cons d above => exact ⟨_, _, rfl⟩
    obtain ⟨m, path, names⟩ := more
    have whole : namesOf (c :: above) a = c.1 :: m :: path := by
      rw [← names]
      rfl
    rw [names] at here
    refine ⟨it, ?_, value⟩
    rw [whole]
    simp only [CNode.lookup, found, Option.bind_some]
    exact here

structure PathName (n : Str) : Prop where
  nonempty : n ≠ []
  plain : '/' ∉ n
  short : n.length + 1 < 2 ^ 31

theorem get_joined {path : List Str} (nonempty : path ≠ []) (names : ∀ n ∈ path, PathName n)
    (Children : List CNode) :
    get Children (joined path) =
      .ok (match CNode.lookup Children path with
        | some it => unquoted it.Value
        | none => []) := by
  have found := configGet_joined nonempty (fun n member => ⟨(names n member).nonempty, (names n member).plain⟩)
    (fun n member => (names n (List.mem_of_mem_dropLast member)).short) Children
  unfold get
  rw [found]
  cases CNode.lookup Children path <;> rfl

/-- A setting that is elsewhere in another tree, or not at all, tells the two apart. -/
theorem told_apart {F F' : List (Rose (Str × Str))} {below : List (Str × Str)} {d : Str × Str}
    (here : (below, d) ∈ entries F') (distinct : ((entries F').map (·.2.1)).Nodup)
    (names : ∀ a ∈ (entries F').map (·.2), PathName a.1) (shown : unquoted d.2 ≠ [])
    (moved : ∀ above a, (above, a) ∈ entries F → a.1 = d.1 → above.length ≠ below.length) :
    ¬ ∀ path, get (cnodes F) path = get (cnodes F') path := by
  intro same
  have nonempty : namesOf below d ≠ [] := by simp [namesOf]
  have plain : ∀ n ∈ namesOf below d, PathName n := by
    intro n member
    rcases List.mem_append.mp member with higher | own
    · obtain ⟨a, ancestor, rfl⟩ := List.mem_map.mp higher
      exact names a (label_of_ancestor here ancestor)
    · rw [List.mem_singleton.mp own]
      exact names d (List.mem_map.mpr ⟨_, here, rfl⟩)
  obtain ⟨it, found, value⟩ := lookup_of_entry here distinct
  have answer := same (joined (namesOf below d))
  rw [get_joined nonempty plain, get_joined nonempty plain, found] at answer
  cases other : CNode.lookup (cnodes F) (namesOf below d) with
  | none =>
    rw [other] at answer
    refine shown ?_
    rw [← value]
    exact (Except.ok.inj answer).symm
  | some top =>
    obtain ⟨above, a, member, path⟩ := entry_of_lookup other
    obtain ⟨higher, own⟩ := List.append_inj' path rfl
    have size := congrArg List.length higher
    rw [List.length_map, List.length_map] at size
    exact moved above a member (List.cons.inj own).1 size

end Solusek.Config
