import Solusek.Lib.Lines

/-!
# Where a reader of lines stops

A reader that takes every line stops behind the shortest stretch of the input whose symbols,
the skipped ones left out, end in two line ends; any other may stop before, at a line it refuses.
-/

namespace Solusek.Lines

variable {α σ ε : Type*} [DecidableEq α]

namespace Reader

variable {R : Reader α σ ε}

/-- The symbols of a stretch that are not skipped. -/
def kept (R : Reader α σ ε) (p : List α) : List α := p.filter fun c => !R.skip c

/-- The shortest stretch whose kept symbols end in two line ends. -/
def Block (R : Reader α σ ε) (p : List α) : Prop :=
  [R.lf, R.lf] <:+ R.kept p ∧ ∀ q, q <+: p → [R.lf, R.lf] <:+ R.kept q → q = p

/-- A stretch that ends in two line ends, if `ex` line ends stand before it. -/
def Ends (R : Reader α σ ε) (ex : Nat) (p : List α) : Prop :=
  [R.lf, R.lf] <:+ List.replicate ex R.lf ++ R.kept p

omit [DecidableEq α] in
theorem ends_zero {p : List α} : R.Ends 0 p ↔ [R.lf, R.lf] <:+ R.kept p := Iff.rfl

omit [DecidableEq α] in
theorem not_ends_nil {ex : Nat} (few : ex < 2) : ¬ R.Ends ex [] := by
  intro ends
  have short := List.IsSuffix.length_le ends
  simp [kept] at short
  omega

omit [DecidableEq α] in
theorem ends_skipped {c : α} (skipped : R.skip c = true) (ex : Nat) (p : List α) :
    R.Ends ex (c :: p) ↔ R.Ends ex p := by
  unfold Ends kept
  rw [List.filter_cons_of_neg (by simp [skipped])]

omit [DecidableEq α] in
theorem ends_lf (visible : R.skip R.lf = false) (ex : Nat) (p : List α) :
    R.Ends ex (R.lf :: p) ↔ R.Ends (ex + 1) p := by
  unfold Ends kept
  rw [List.filter_cons_of_pos (by simp [visible]), List.replicate_succ', List.append_assoc]
  rfl

omit [DecidableEq α] in
theorem ends_other {c : α} (shown : R.skip c = false) (other : c ≠ R.lf) (ex : Nat) (p : List α) :
    R.Ends ex (c :: p) ↔ R.Ends 0 p := by
  have kept_cons : R.kept (c :: p) = c :: R.kept p := List.filter_cons_of_pos (by simp [shown])
  constructor
  · intro ends
    unfold Ends at ends
    rw [kept_cons] at ends
    rcases List.suffix_or_suffix_of_suffix ends (List.suffix_append _ _) with inside | around
    · rcases List.suffix_cons_iff.mp inside with start | later
      · exact absurd (List.cons.inj start).1.symm other
      · exact later
    · exact absurd (by simpa using around.subset List.mem_cons_self) other
  · intro ends
    unfold Ends
    rw [kept_cons]
    exact ((ends_zero.mp ends).trans (List.suffix_cons c _)).trans (List.suffix_append _ _)

omit [DecidableEq α] in
/-- If one symbol changes the count of line ends from `ex` to `ex'`, a stretch behind it is the
shortest for `ex'` exactly if it is the shortest for `ex` together with the symbol. -/
theorem shortest_cons {c : α} {ex ex' : Nat} (few : ex < 2)
    (next : ∀ q, R.Ends ex (c :: q) ↔ R.Ends ex' q) (p : List α) :
    (∀ q, q <+: c :: p → R.Ends ex q → q = c :: p) ↔ ∀ q, q <+: p → R.Ends ex' q → q = p := by
  constructor
  · intro shortest q inside ends
    exact (List.cons.inj (shortest (c :: q) (List.cons_prefix_cons.mpr ⟨rfl, inside⟩)
      ((next q).mpr ends))).2
  · intro shortest q inside ends
    rcases List.prefix_cons_iff.mp inside with rfl | ⟨q, rfl, within⟩
    · exact absurd ends (not_ends_nil few)
    · rw [shortest q within ((next q).mp ends)]

omit [DecidableEq α] in
theorem none_cons {c : α} {ex ex' : Nat} (few : ex < 2)
    (next : ∀ q, R.Ends ex (c :: q) ↔ R.Ends ex' q) {rx : List α}
    (none : ∀ q, q <+: rx → ¬ R.Ends ex' q) : ∀ q, q <+: c :: rx → ¬ R.Ends ex q := by
  intro q inside ends
  rcases List.prefix_cons_iff.mp inside with rfl | ⟨q, rfl, within⟩
  · exact not_ends_nil few ends
  · exact none q within ((next q).mp ends)

/-- The reader stops behind the shortest stretch that ends in two line ends, or reads to the end
of the input. -/
def Framed (R : Reader α σ ε) (line : List α) (ex : Nat) (s : σ) (rx : List α) : Prop :=
  (∃ u p rest, rx = p ++ rest ∧ R.scan line ex s rx = (u, .ok rest) ∧
    R.scan line ex s p = (u, .ok []) ∧ R.Ends ex p ∧ ∀ q, q <+: p → R.Ends ex q → q = p) ∨
  ((∃ u, R.scan line ex s rx = (u, .error R.eof)) ∧ ∀ q, q <+: rx → ¬ R.Ends ex q)

/-- The reader stops at a line that is an error. -/
def Refused (R : Reader α σ ε) (line : List α) (ex : Nat) (s : σ) (rx : List α) : Prop :=
  ∃ u e, R.scan line ex s rx = (u, .error e) ∧ ∃ t l, R.onLine t l = .error e

theorem scan_framed (visible : R.skip R.lf = false) {ex : Nat} (few : ex < 2) (line : List α)
    (s : σ) (rx : List α) : R.Framed line ex s rx ∨ R.Refused line ex s rx := by
  induction rx generalizing line ex s with
  | nil =>
    refine Or.inl (Or.inr ⟨⟨s, rfl⟩, fun q inside => ?_⟩)
    rw [List.prefix_nil.mp inside]
    exact not_ends_nil few
  | cons c rx ih =>
    -- Unless this symbol is the second line end, the frame behind it gives the whole one.
    have further {ex' : Nat} {line' : List α} {t : σ} (few' : ex' < 2)
        (next : ∀ q, R.Ends ex (c :: q) ↔ R.Ends ex' q)
        (step : ∀ rx, R.scan line ex s (c :: rx) = R.scan line' ex' t rx) :
        R.Framed line ex s (c :: rx) ∨ R.Refused line ex s (c :: rx) := by
      rcases ih few' line' t with
        (⟨u, p, rest, rfl, read, exactly, ends, shortest⟩ | ⟨⟨u, read⟩, none⟩) | ⟨u, e, read, refused⟩
      · exact Or.inl (Or.inl ⟨u, c :: p, rest, rfl, (step _).trans read, (step p).trans exactly,
          (next p).mpr ends, (shortest_cons few next p).mpr shortest⟩)
      · exact Or.inl (Or.inr ⟨⟨u, (step rx).trans read⟩, none_cons few next none⟩)
      · exact Or.inr ⟨u, e, (step rx).trans read, refused⟩
    by_cases passed : R.skip c = true
    · exact further few (ends_skipped passed ex) fun rx => by rw [scan, if_pos passed]
    · by_cases ends : c = R.lf
      · subst ends
        cases handled : R.onLine s line with
        | error e =>
          refine Or.inr ⟨s, e, ?_, s, line, handled⟩
          rw [scan, if_neg passed, if_pos rfl, handled]
        | ok t =>
          have step rx : R.scan line ex s (R.lf :: rx) =
              if ex + 1 = 2 then (t, .ok rx) else R.scan [] (ex + 1) t rx := by
            rw [scan, if_neg passed, if_pos rfl, handled]
          by_cases second : ex + 1 = 2
          · have stops : R.Ends ex [R.lf] := by
              rw [ends_lf visible, second]
              simp [Ends, kept, List.replicate]
            refine Or.inl (Or.inl ⟨t, [R.lf], rx, rfl, by rw [step, if_pos second],
              by rw [step, if_pos second], stops, fun q inside ends => ?_⟩)
            rcases List.prefix_cons_iff.mp inside with rfl | ⟨q, rfl, within⟩
            · exact absurd ends (not_ends_nil few)
            · rw [List.prefix_nil.mp within]
          · exact further (by omega) (ends_lf visible ex) fun rx => by rw [step, if_neg second]
      · exact further (by omega) (ends_other (by simpa using passed) ends ex) fun rx => by
          rw [scan, if_neg passed, if_neg ends]

/-- The same for a whole input: the block it starts with, or the end of the input, or an error of
one of its lines. -/
theorem scan_block (visible : R.skip R.lf = false) (apart : ∀ s l, R.onLine s l ≠ .error R.eof)
    (s : σ) (rx : List α) :
    (∃ u p rest, rx = p ++ rest ∧ R.Block p ∧ R.scan [] 0 s rx = (u, .ok rest) ∧
      (R.lines p).foldlM R.onLine s = .ok u) ∨
    ((∃ u, R.scan [] 0 s rx = (u, .error R.eof) ∧ (R.lines rx).foldlM R.onLine s = .ok u) ∧
      ∀ p, p <+: rx → ¬ R.Block p) ∨
    R.Refused [] 0 s rx := by
  rcases scan_framed visible (show 0 < 2 by decide) [] s rx with
    (⟨u, p, rest, whole, read, exactly, ends, shortest⟩ | ⟨⟨u, read⟩, none⟩) | refused
  · refine Or.inl ⟨u, p, rest, whole, ⟨ends, shortest⟩, read, ?_⟩
    exact scan_lines visible apart List.not_mem_nil exactly (Or.inl rfl)
  · refine Or.inr (Or.inl ⟨⟨u, read, ?_⟩, fun p inside block => none p inside block.1⟩)
    exact scan_lines visible apart List.not_mem_nil read (Or.inr rfl)
  · exact Or.inr (Or.inr refused)

/-- A reader that takes every line. -/
theorem scan_block_total (visible : R.skip R.lf = false)
    (total : ∀ s l, ∃ t, R.onLine s l = .ok t) (s : σ) (rx : List α) :
    (∃ u p rest, rx = p ++ rest ∧ R.Block p ∧ R.scan [] 0 s rx = (u, .ok rest) ∧
      (R.lines p).foldlM R.onLine s = .ok u) ∨
    ((∃ u, R.scan [] 0 s rx = (u, .error R.eof)) ∧ ∀ p, p <+: rx → ¬ R.Block p) := by
  have apart s l : R.onLine s l ≠ .error R.eof := by
    obtain ⟨t, handled⟩ := total s l
    simp [handled]
  rcases scan_block visible apart s rx with block | ⟨⟨u, read, _⟩, none⟩ | ⟨u, e, _, t, l, failed⟩
  · exact Or.inl block
  · exact Or.inr ⟨⟨u, read⟩, none⟩
  · obtain ⟨v, handled⟩ := total t l
    exact nomatch handled.symm.trans failed

omit [DecidableEq α] in
theorem Block.unique {p q rx : List α} (block : R.Block p) (other : R.Block q) (inside : p <+: rx)
    (within : q <+: rx) : p = q := by
  rcases List.prefix_or_prefix_of_prefix inside within with shorter | longer
  · exact other.2 p shorter block.1
  · exact (block.2 q longer other.1).symm

theorem kept_splitOn (visible : R.skip R.lf = false) (p : List α) :
    (R.kept p).splitOn R.lf = (p.splitOn R.lf).map R.kept := by
  induction p with
  | nil => simp [kept]
  | cons c p ih =>
    rw [List.splitOn_cons_eq_if_modifyHead]
    cases skipped : R.skip c with
    | true =>
      have inner : R.kept (c :: p) = R.kept p := List.filter_cons_of_neg (by simp [skipped])
      have other : ¬ (c == R.lf) = true := by
        intro same
        rw [beq_iff_eq.mp same, visible] at skipped
        cases skipped
      rw [inner, ih, if_neg other]
      cases p.splitOn R.lf with
      | nil => rfl
      | cons l ls => simp [kept, skipped]
    | false =>
      have inner : R.kept (c :: p) = c :: R.kept p := List.filter_cons_of_pos (by simp [skipped])
      rw [inner, List.splitOn_cons_eq_if_modifyHead, ih]
      split
      · rfl
      · cases p.splitOn R.lf with
        | nil => rfl
        | cons l ls => simp [kept, skipped]

theorem lines_kept (visible : R.skip R.lf = false) (plain : ∀ c, R.add c = [c]) (p : List α) :
    R.lines p = ((R.kept p).splitOn R.lf).dropLast := by
  have shown_eq : R.shown = R.kept := by
    funext l
    unfold shown
    rw [funext plain, List.flatMap_singleton']
    rfl
  rw [kept_splitOn visible, lines, shown_eq, List.map_dropLast]

/-! ### Written lines -/

omit [DecidableEq α] in
theorem foldlM_total (total : ∀ s l, ∃ t, R.onLine s l = .ok t) (s : σ) (lines : List (List α)) :
    ∃ u, lines.foldlM R.onLine s = .ok u := by
  induction lines generalizing s with
  | nil => exact ⟨s, rfl⟩
  | cons l lines ih =>
    obtain ⟨t, handled⟩ := total s l
    obtain ⟨u, rest⟩ := ih t
    exact ⟨u, by rw [List.foldlM_cons, handled]; exact rest⟩

theorem block_text (visible : R.skip R.lf = false) (total : ∀ s l, ∃ t, R.onLine s l = .ok t)
    (s : σ) {skipped : List α} (passed : ∀ c ∈ skipped, R.skip c = true) {lines : List (List α)}
    (nonempty : lines ≠ []) (inside : ∀ l ∈ lines, R.lf ∉ l)
    (written : ∀ l ∈ lines, l.all R.skip = false) : R.Block (R.text skipped lines) := by
  obtain ⟨u, handled⟩ := foldlM_total total s (lines.map R.shown ++ [[]])
  have read := scan_text passed visible nonempty inside written [] handled
  rw [List.append_nil] at read
  rcases scan_block_total visible total s (R.text skipped lines) with
    ⟨v, p, rest, whole, block, read', _⟩ | ⟨⟨v, read'⟩, _⟩
  · rw [read] at read'
    have none : rest = [] := (Except.ok.inj (Prod.mk.inj read').2).symm
    rw [whole, none, List.append_nil]
    exact block
  · rw [read] at read'
    cases (Prod.mk.inj read').2

theorem lines_text (visible : R.skip R.lf = false) {skipped : List α}
    (passed : ∀ c ∈ skipped, R.skip c = true) {lines : List (List α)}
    (inside : ∀ l ∈ lines, R.lf ∉ l) :
    R.lines (R.text skipped lines) = lines.map R.shown ++ [[]] := by
  have apart : R.lf ∉ skipped := by
    intro member
    rw [passed _ member] at visible
    cases visible
  have unseen l : R.shown (l ++ skipped) = R.shown l := by
    have none : skipped.filter (fun c => !R.skip c) = [] :=
      List.filter_eq_nil_iff.mpr fun c member => by simp [passed c member]
    simp [shown, none]
  induction lines with
  | nil =>
    have split : R.text skipped [] = skipped ++ R.lf :: [] := by simp [text, brk]
    rw [split, lines_cons apart, lines_open List.not_mem_nil, ← List.nil_append skipped, unseen]
    rfl
  | cons l lines ih =>
    have split : R.text skipped (l :: lines) = (l ++ skipped) ++ R.lf :: R.text skipped lines := by
      simp [text, brk]
    have outside : R.lf ∉ l ++ skipped := by simp [inside l List.mem_cons_self, apart]
    rw [split, lines_cons outside, unseen,
      ih fun k member => inside k (List.mem_cons_of_mem _ member)]
    rfl

end Reader

end Solusek.Lines
