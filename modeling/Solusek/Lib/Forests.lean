import Solusek.Lib.Texts

/-!
# Forests

Ordered trees, the preorder of their nodes, and what a new node at the end of the open branch does
to it.
-/

namespace Solusek.Nesting

inductive Rose (α : Type*) where
  | node (a : α) (children : List (Rose α))

variable {α : Type*}

/-! ### Forests -/

mutual

def Rose.size : Rose α → Nat
  | .node _ children => sizes children + 1
termination_by structural t => t

def sizes : List (Rose α) → Nat
  | [] => 0
  | t :: rest => t.size + sizes rest
termination_by structural l => l

end

mutual

def Rose.preorder (parent : Option Nat) (start : Nat) : Rose α → List (α × Option Nat)
  | .node a children => (a, parent) :: preorder (some start) (start + 1) children
termination_by structural t => t

/-- The labels in pre-order, each with the position of its parent; the first one is at `start`. -/
def preorder (parent : Option Nat) (start : Nat) : List (Rose α) → List (α × Option Nat)
  | [] => []
  | t :: rest => t.preorder parent start ++ preorder parent (start + t.size) rest
termination_by structural l => l

end

mutual

def Rose.entries : Rose α → List (List α × α)
  | .node a children => ([], a) :: (entries children).map fun e => (a :: e.1, e.2)
termination_by structural t => t

/-- The labels in pre-order, each behind the labels of its ancestors. -/
def entries : List (Rose α) → List (List α × α)
  | [] => []
  | t :: rest => t.entries ++ entries rest
termination_by structural l => l

end

theorem sizes_append (F G : List (Rose α)) : sizes (F ++ G) = sizes F + sizes G := by
  induction F with
  | nil => simp [sizes]
  | cons t F ih =>
    simp only [List.cons_append, sizes, ih]
    omega

theorem preorder_append (parent : Option Nat) (start : Nat) (F G : List (Rose α)) :
    preorder parent start (F ++ G) = preorder parent start F ++ preorder parent (start + sizes F) G := by
  induction F generalizing start with
  | nil => simp [preorder, sizes]
  | cons t F ih =>
    have next : start + t.size + sizes F = start + (t.size + sizes F) := by omega
    simp only [List.cons_append, preorder, sizes, ih, List.append_assoc, next]

theorem entries_append (F G : List (Rose α)) : entries (F ++ G) = entries F ++ entries G := by
  induction F with
  | nil => rfl
  | cons t F ih => simp only [List.cons_append, entries, ih, List.append_assoc]

theorem mem_entries {F : List (Rose α)} {above : List α} {a : α} :
    (above, a) ∈ entries F ↔ ∃ b children, .node b children ∈ F ∧
      ((above = [] ∧ a = b) ∨ ∃ rest, above = b :: rest ∧ (rest, a) ∈ entries children) := by
  induction F with
  | nil => simp [entries]
  | cons t F ih =>
    obtain ⟨b, children⟩ := t
    have here : (above, a) ∈ (Rose.node b children).entries ↔
        (above = [] ∧ a = b) ∨ ∃ rest, above = b :: rest ∧ (rest, a) ∈ entries children := by
      simp only [Rose.entries, List.mem_cons, List.mem_map, Prod.mk.injEq, Prod.exists]
      refine or_congr Iff.rfl ⟨?_, ?_⟩
      · rintro ⟨rest, c, inside, rfl, rfl⟩
        exact ⟨rest, rfl, inside⟩
      · rintro ⟨rest, rfl, inside⟩
        exact ⟨rest, a, inside, rfl, rfl⟩
    rw [entries, List.mem_append, here, ih]
    constructor
    · rintro (first | ⟨c, inner, member, found⟩)
      · exact ⟨b, children, List.mem_cons_self, first⟩
      · exact ⟨c, inner, List.mem_cons_of_mem _ member, found⟩
    · rintro ⟨c, inner, member, found⟩
      rcases List.mem_cons.mp member with same | later
      · obtain ⟨rfl, rfl⟩ := Rose.node.inj same
        exact Or.inl found
      · exact Or.inr ⟨c, inner, later, found⟩

theorem label_of_ancestor {F : List (Rose α)} {above : List α} {a b : α}
    (member : (above, a) ∈ entries F) (ancestor : b ∈ above) : b ∈ (entries F).map (·.2) := by
  induction above generalizing F with
  | nil => exact absurd ancestor List.not_mem_nil
  | cons c above ih =>
    obtain ⟨d, children, inside, ⟨empty, _⟩ | ⟨rest, split, below⟩⟩ := mem_entries.mp member
    · exact absurd empty (List.cons_ne_nil _ _)
    · obtain ⟨rfl, rfl⟩ := List.cons.inj split
      rcases List.mem_cons.mp ancestor with rfl | higher
      · exact List.mem_map.mpr ⟨([], b), mem_entries.mpr ⟨b, children, inside, by simp⟩, rfl⟩
      · obtain ⟨e, found, rfl⟩ := List.mem_map.mp (ih below higher)
        exact List.mem_map.mpr ⟨(c :: e.1, e.2),
          mem_entries.mpr ⟨c, children, inside, Or.inr ⟨e.1, rfl, found⟩⟩, rfl⟩

/-! ### Making a node -/

/-- A new last node at depth `d`, below the last nodes of the levels above. -/
def attach : Nat → α → List (Rose α) → List (Rose α)
  | 0, a, F => F ++ [.node a []]
  | d + 1, a, F =>
    match F.getLast? with
    | some (.node b children) => F.dropLast ++ [.node b (attach d a children)]
    | none => [.node a []]

theorem attach_snoc (d : Nat) (a b : α) (F children : List (Rose α)) :
    attach (d + 1) a (F ++ [.node b children]) = F ++ [.node b (attach d a children)] := by
  simp [attach]

/-- The last nodes of the top levels of a forest: their positions and labels. -/
inductive Trail : Nat → List (Rose α) → List (Nat × α) → Prop where
  | nil (start : Nat) (F : List (Rose α)) : Trail start F []
  | cons {start : Nat} {F children : List (Rose α)} {b : α} {marks : List (Nat × α)}
      (below : Trail (start + sizes F + 1) children marks) :
      Trail start (F ++ [.node b children]) ((start + sizes F, b) :: marks)

theorem Trail.left {start : Nat} {F : List (Rose α)} {marks more : List (Nat × α)}
    (trail : Trail start F (marks ++ more)) : Trail start F marks := by
  induction marks generalizing start F with
  | nil => exact .nil start F
  | cons mark marks ih =>
    cases trail with
    | cons below => exact .cons (ih below)

theorem Trail.sizes_attach {start : Nat} {F : List (Rose α)} {marks : List (Nat × α)}
    (trail : Trail start F marks) (a : α) : sizes (attach marks.length a F) = sizes F + 1 := by
  induction trail with
  | nil start F => simp [attach, sizes_append, sizes, Rose.size]
  | cons below ih =>
    rw [List.length_cons, attach_snoc, sizes_append, sizes_append]
    simp only [sizes, Rose.size, ih]
    omega

theorem Trail.attach {start : Nat} {F : List (Rose α)} {marks : List (Nat × α)}
    (trail : Trail start F marks) (a : α) :
    Trail start (attach marks.length a F) (marks ++ [(start + sizes F, a)]) := by
  induction trail with
  | nil start F => exact .cons (.nil _ _)
  | @cons start F children b marks below ih =>
    have place : start + sizes (F ++ [.node b children]) =
        start + sizes F + 1 + sizes children := by
      simp only [sizes_append, sizes, Rose.size]
      omega
    rw [List.length_cons, attach_snoc, List.cons_append, place]
    exact .cons ih

/-- The new node is the last one in pre-order; its parent is the last node above it. -/
theorem Trail.preorder_attach {start : Nat} {F : List (Rose α)} {marks : List (Nat × α)}
    (trail : Trail start F marks) (a : α) (parent : Option Nat) :
    preorder parent start (Nesting.attach marks.length a F) =
      preorder parent start F ++ [(a, (marks.getLast?.map (·.1)).or parent)] := by
  induction trail generalizing parent with
  | nil start F => simp [Nesting.attach, preorder_append, preorder, Rose.preorder]
  | @cons start F children b marks below ih =>
    have last : ((((start + sizes F, b) :: marks).getLast?).map (·.1)).or parent =
        (marks.getLast?.map (·.1)).or (some (start + sizes F)) := by
      rw [List.getLast?_cons]
      cases marks.getLast? <;> rfl
    rw [List.length_cons, attach_snoc, preorder_append, preorder_append, last]
    simp only [preorder, Rose.preorder, ih, List.append_nil, List.append_assoc, List.cons_append]

theorem Trail.entries_attach {start : Nat} {F : List (Rose α)} {marks : List (Nat × α)}
    (trail : Trail start F marks) (a : α) :
    entries (Nesting.attach marks.length a F) = entries F ++ [(marks.map (·.2), a)] := by
  induction trail with
  | nil start F => simp [Nesting.attach, entries_append, entries, Rose.entries]
  | cons below ih =>
    rw [List.length_cons, attach_snoc, entries_append, entries_append]
    simp only [entries, Rose.entries, ih, List.map_append, List.map_cons, List.map_nil,
      List.append_nil, List.append_assoc, List.cons_append]

end Solusek.Nesting
