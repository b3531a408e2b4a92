import Mathlib

/-!
# Reading lines up to an empty one

A reader takes symbols one by one, hands every line to `onLine` and stops behind the first line
end that follows another one with nothing but skipped symbols between them.
-/

namespace Solusek.Lines

variable {α σ ε : Type*} [DecidableEq α]

/-- `skip` symbols are passed over, `lf` ends a line, and any other symbol `c` adds `add c`. -/
structure Reader (α σ ε : Type*) where
  skip : α → Bool
  lf : α
  add : α → List α
  onLine : σ → List α → Except ε σ
  eof : ε

namespace Reader

/-- `ex` counts the line ends in a row. The state reached stays when a line or the end of the
input is an error. -/
def scan (R : Reader α σ ε) (line : List α) (ex : Nat) (s : σ) : List α → σ × Except ε (List α)
  | [] => (s, .error R.eof)
  | c :: rx =>
    if R.skip c then scan R line ex s rx
    else if c = R.lf then
      match R.onLine s line with
      | .error e => (s, .error e)
      | .ok s => if ex + 1 = 2 then (s, .ok rx) else scan R [] (ex + 1) s rx
    else scan R (line ++ R.add c) 0 s rx

/-- What a stretch of symbols adds to the line. -/
def shown (R : Reader α σ ε) (p : List α) : List α := (p.filter fun c => !R.skip c).flatMap R.add

variable {R : Reader α σ ε}

omit [DecidableEq α] in
theorem shown_plain {p : List α} (plain : ∀ c ∈ p, R.skip c = false ∧ R.add c = [c]) :
    R.shown p = p := by
  induction p with
  | nil => rfl
  | cons c p ih =>
    obtain ⟨kept, added⟩ := plain c List.mem_cons_self
    have rest := ih fun d member => plain d (List.mem_cons_of_mem _ member)
    unfold shown at rest ⊢
    simp [kept, added, rest]

theorem scan_skipped {p : List α} (skipped : ∀ c ∈ p, R.skip c = true) (line : List α) (ex : Nat)
    (s : σ) (rx : List α) : R.scan line ex s (p ++ rx) = R.scan line ex s rx := by
  induction p with
  | nil => rfl
  | cons c p ih =>
    rw [List.cons_append, scan, if_pos (skipped c List.mem_cons_self)]
    exact ih fun d member => skipped d (List.mem_cons_of_mem _ member)

theorem scan_stretch {p : List α} (inside : R.lf ∉ p) (line : List α) (ex : Nat) (s : σ)
    (rx : List α) : R.scan line ex s (p ++ rx) =
      R.scan (line ++ R.shown p) (if p.all R.skip then ex else 0) s rx := by
  induction p generalizing line ex with
  | nil => simp [shown]
  | cons c p ih =>
    have later : R.lf ∉ p := fun member => inside (List.mem_cons_of_mem _ member)
    have other : c ≠ R.lf := fun same => inside (by simp [same])
    rw [List.cons_append, scan]
    cases passed : R.skip c with
    | true => simp [ih later, shown, passed]
    | false => simp [ih later, shown, passed, other]

/-- A line end: skipped symbols and `lf`. -/
def brk (R : Reader α σ ε) (skipped : List α) : List α := skipped ++ [R.lf]

theorem scan_brk {skipped : List α} (passed : ∀ c ∈ skipped, R.skip c = true)
    (visible : R.skip R.lf = false) {line : List α} {ex : Nat} {s t : σ}
    (handled : R.onLine s line = .ok t) (rx : List α) :
    R.scan line ex s (R.brk skipped ++ rx) =
      if ex + 1 = 2 then (t, .ok rx) else R.scan [] (ex + 1) t rx := by
  rw [brk, List.append_assoc, scan_skipped passed]
  simp [scan, visible, handled]

theorem scan_line {skipped : List α} (passed : ∀ c ∈ skipped, R.skip c = true)
    (visible : R.skip R.lf = false) {l : List α} (inside : R.lf ∉ l)
    (written : l.all R.skip = false) {ex : Nat} {s t : σ}
    (handled : R.onLine s (R.shown l) = .ok t) (rx : List α) :
    R.scan [] ex s (l ++ (R.brk skipped ++ rx)) = R.scan [] 1 t rx := by
  rw [scan_stretch inside, written, List.nil_append]
  simp only [Bool.false_eq_true, if_false]
  rw [scan_brk passed visible handled]
  rfl

/-- Lines and the empty line behind them. -/
def text (R : Reader α σ ε) (skipped : List α) (lines : List (List α)) : List α :=
  lines.flatMap (· ++ R.brk skipped) ++ R.brk skipped

theorem scan_text_open {skipped : List α} (passed : ∀ c ∈ skipped, R.skip c = true)
    (visible : R.skip R.lf = false) {lines : List (List α)} (inside : ∀ l ∈ lines, R.lf ∉ l)
    (written : ∀ l ∈ lines, l.all R.skip = false) (rx : List α) {s u : σ}
    (handled : (lines.map R.shown ++ [[]]).foldlM R.onLine s = .ok u) :
    R.scan [] 1 s (R.text skipped lines ++ rx) = (u, .ok rx) := by
  induction lines generalizing s with
  | nil =>
    have last : R.onLine s [] = .ok u := by
      simpa [List.foldlM_cons, List.foldlM_nil, bind_pure] using handled
    simp [text, scan_brk passed visible last]
  | cons l lines ih =>
    simp only [List.map_cons, List.cons_append, List.foldlM_cons] at handled
    cases first : R.onLine s (R.shown l) with
    | error e =>
      rw [first] at handled
      exact absurd handled (by simp [bind, Except.bind])
    | ok t =>
      rw [first] at handled
      have rest := ih (fun k member => inside k (List.mem_cons_of_mem _ member))
        (fun k member => written k (List.mem_cons_of_mem _ member)) handled
      have split : R.text skipped (l :: lines) ++ rx =
          l ++ (R.brk skipped ++ (R.text skipped lines ++ rx)) := by
        simp [text]
      rw [split, scan_line passed visible (inside l List.mem_cons_self)
        (written l List.mem_cons_self) first, rest]

theorem scan_text {skipped : List α} (passed : ∀ c ∈ skipped, R.skip c = true)
    (visible : R.skip R.lf = false) {lines : List (List α)} (nonempty : lines ≠ [])
    (inside : ∀ l ∈ lines, R.lf ∉ l) (written : ∀ l ∈ lines, l.all R.skip = false)
    (rx : List α) {s u : σ}
    (handled : (lines.map R.shown ++ [[]]).foldlM R.onLine s = .ok u) :
    R.scan [] 0 s (R.text skipped lines ++ rx) = (u, .ok rx) := by
  obtain ⟨l, lines, rfl⟩ := List.exists_cons_of_ne_nil nonempty
  have scanned := scan_text_open passed visible inside written rx handled
  have split : R.text skipped (l :: lines) ++ rx =
      l ++ (R.brk skipped ++ (R.text skipped lines ++ rx)) := by
    simp [text]
  rw [split] at scanned ⊢
  -- The first line puts the count back to where it is behind any line.
  rw [scan_stretch (inside l List.mem_cons_self), written l List.mem_cons_self] at scanned ⊢
  exact scanned

theorem scan_append {p rest : List α} {line : List α} {ex : Nat} {s u : σ}
    (read : R.scan line ex s p = (u, .ok rest)) (q : List α) :
    R.scan line ex s (p ++ q) = (u, .ok (rest ++ q)) := by
  induction p generalizing line ex s with
  | nil => cases read
  | cons c p ih =>
    rw [List.cons_append]
    unfold scan at read ⊢
    split at read <;> rename_i passed
    · rw [if_pos passed]
      exact ih read
    · rw [if_neg passed]
      split at read <;> rename_i ends
      · rw [if_pos ends]
        cases handled : R.onLine s line with
        | error e =>
          rw [handled] at read
          cases read
        | ok t =>
          rw [handled] at read
          dsimp only at read ⊢
          split at read <;> rename_i second
          · rw [if_pos second]
            obtain ⟨rfl, same⟩ := Prod.mk.inj read
            rw [Except.ok.inj same]
          · rw [if_neg second]
            exact ih read
      · rw [if_neg ends]
        exact ih read

/-- The lines of a text that have ended. -/
def lines (R : Reader α σ ε) (p : List α) : List (List α) :=
  (p.splitOn R.lf).dropLast.map R.shown

theorem lines_open {p : List α} (inside : R.lf ∉ p) : R.lines p = [] := by
  have single : p.splitOn R.lf = [p] := by
    rw [List.splitOn_eq_splitOnP]
    refine List.splitOnP_eq_singleton fun c member => ?_
    simp only [beq_eq_false_iff_ne]
    exact fun same => inside (same ▸ member)
  rw [lines, single]
  rfl

theorem lines_cons {l : List α} (inside : R.lf ∉ l) (p : List α) :
    R.lines (l ++ R.lf :: p) = R.shown l :: R.lines p := by
  have split : (l ++ R.lf :: p).splitOn R.lf = l :: p.splitOn R.lf := by
    have outside : ∀ c ∈ l, (fun c => c == R.lf) c = false := by
      intro c member
      simp only [beq_eq_false_iff_ne]
      exact fun same => inside (same ▸ member)
    rw [List.splitOn_eq_splitOnP, List.splitOn_eq_splitOnP]
    exact List.splitOnP_append_cons_of_forall_mem outside R.lf (beq_self_eq_true R.lf) p
  rw [lines, split, List.dropLast_cons_of_ne_nil (List.splitOn_ne_nil _ _)]
  rfl

/-- A text that is read to its end has had its lines handled, one after the other. `raw` is the
part of the text read since the last line end. -/
theorem scan_lines (visible : R.skip R.lf = false) (apart : ∀ s l, R.onLine s l ≠ .error R.eof)
    {p raw : List α} (inside : R.lf ∉ raw) {ex : Nat} {s u : σ} {answer : Except ε (List α)}
    (read : R.scan (R.shown raw) ex s p = (u, answer))
    (ended : answer = .ok [] ∨ answer = .error R.eof) :
    (R.lines (raw ++ p)).foldlM R.onLine s = .ok u := by
  induction p generalizing raw ex s with
  | nil =>
    have same : s = u := (Prod.mk.inj read).1
    rw [List.append_nil, lines_open inside, same]
    rfl
  | cons c p ih =>
    have further : raw ++ c :: p = raw ++ [c] ++ p := by simp
    unfold scan at read
    split at read <;> rename_i passed
    · have other : R.lf ∉ raw ++ [c] := by
        have apart' : R.lf ≠ c := by
          rintro rfl
          simp [visible] at passed
        simp [inside, apart']
      have shown' : R.shown (raw ++ [c]) = R.shown raw := by simp [shown, passed]
      rw [further]
      exact ih other (by rw [shown']; exact read)
    · split at read <;> rename_i ends
      · rw [ends, lines_cons inside, List.foldlM_cons]
        cases handled : R.onLine s (R.shown raw) with
        | error e =>
          rw [handled] at read
          have same := (Prod.mk.inj read).2
          rw [← same] at ended
          rcases ended with none | eof
          · cases none
          · exact absurd (handled.trans (congrArg Except.error (Except.error.inj eof))) (apart s _)
        | ok t =>
          rw [handled] at read
          dsimp only at read
          show (R.lines p).foldlM R.onLine t = .ok u
          split at read
          · obtain ⟨same, rest⟩ := Prod.mk.inj read
            have empty : p = [] := by
              rcases ended with none | eof
              · rw [← rest] at none
                exact Except.ok.inj none
              · rw [← rest] at eof
                cases eof
            rw [empty, same, lines_open List.not_mem_nil]
            rfl
          · exact ih List.not_mem_nil read
      · have other : R.lf ∉ raw ++ [c] := by simp [inside, Ne.symm ends]
        have shown' : R.shown (raw ++ [c]) = R.shown raw ++ R.add c := by simp [shown, passed]
        rw [further]
        exact ih other (by rw [shown']; exact read)

end Reader

end Solusek.Lines
