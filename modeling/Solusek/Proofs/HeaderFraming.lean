import Solusek.Lib.Blocks
import Solusek.Proofs.NodeInput

/-!
# The frame of a header

`readHeader` stops behind the first two LFs in a row, CR and NUL bytes left out. Every line up to
there has its entry, and `getHeader` finds the first line with a name, unless that line has no
colon and is too long for the `int` of `strtolower`.
-/

namespace Solusek.Node

open Socket Lines

/-- The bytes that `readHeader` does not pass over. -/
def filtered (p : Str) : Str := p.filter fun c => !(c == '\r' || c == '\x00')

/-- The shortest text that ends, filtered, in two LFs. -/
def Header (p : Str) : Prop :=
  "\n\n".toList <:+ filtered p ∧ ∀ q, q <+: p → "\n\n".toList <:+ filtered q → q = p

def headerLines (p : Str) : List Str := ((filtered p).splitOn '\n').dropLast

/-- The text before the first colon, or the whole line, is `name` but for its case. -/
def hasName (name line : Str) : Bool :=
  (line.takeWhile (· ≠ ':')).map Char.toLower == name.map Char.toLower

/-- The name of a line without a colon is compared as `strtolower` leaves it. -/
def Lowered (line : Str) : Prop :=
  ':' ∈ line ∨ ∀ c ∈ line.drop (sizeToInt line.length).toNat, c.toLower = c

/-- What `readHeader` makes of a stream, and `getHeader` of its headers. -/
structure Reads (net : Net) (rx name : Str) : Prop where
  endless : (∀ p, p <+: rx → ¬ Header p) → readHeader net rx = .error (.int net.eof)
  loop : ∀ p rest, Header p → rx = p ++ rest →
    headerLoop net.eof [] 0 [] rx = .ok ((headerLines p).map entry, rest)
  node : ∀ p rest, Header p → rx = p ++ rest → ∀ node rx', readHeader net rx = .ok (node, rx') →
    node.Headers = (headerLines p).map entry ∧ rx' = rest
  lookup : ∀ p, p <+: rx → Header p → ' ' ∈ (headerLines p).headI → name ≠ [] → ' ' ∉ name →
    ∀ node : CNode, node.Headers = (headerLines p).map entry →
      node.getHeader name = ((headerLines p).find? (hasName name)).map entry

/-! ### The loop -/

theorem header_iff (eof : Int) (p : Str) : Header p ↔ (headerReader eof).Block p := Iff.rfl

theorem headerLines_eq (eof : Int) (p : Str) : headerLines p = (headerReader eof).lines p :=
  (Reader.lines_kept (R := headerReader eof) rfl (fun _ => rfl) p).symm

theorem headerReader_total (eof : Int) (Headers : List CVarVal) (line : Str) :
    ∃ Headers', (headerReader eof).onLine Headers line = .ok Headers' := by
  refine ⟨Headers ++ [entry line], ?_⟩
  simp [headerReader, headerLine_eq, Except.map]

theorem headerLoop_framed (eof : Int) (rx : Str) :
    (∃ p rest, rx = p ++ rest ∧ Header p ∧
      headerLoop eof [] 0 [] rx = .ok ((headerLines p).map entry, rest)) ∨
    (headerLoop eof [] 0 [] rx = .error (.int eof) ∧ ∀ p, p <+: rx → ¬ Header p) := by
  rw [headerLoop_eq]
  rcases Reader.scan_block_total rfl (headerReader_total eof) [] rx with
    ⟨u, p, rest, whole, block, read, handled⟩ | ⟨⟨u, read⟩, none⟩
  · rw [foldlM_headerLine, List.nil_append] at handled
    refine Or.inl ⟨p, rest, whole, block, ?_⟩
    rw [read, headerLines_eq eof, Except.ok.inj handled]
    rfl
  · refine Or.inr ⟨?_, none⟩
    rw [read]
    rfl

theorem Header.unique {p q rest rest' : Str} (header : Header p) (other : Header q)
    (same : p ++ rest = q ++ rest') : p = q ∧ rest = rest' := by
  have equal : p = q := Reader.Block.unique ((header_iff 0 p).mp header) ((header_iff 0 q).mp other)
    (List.prefix_append p rest) (same ▸ List.prefix_append q rest')
  subst equal
  exact ⟨rfl, List.append_cancel_left same⟩

theorem headerLoop_header (eof : Int) {p : Str} (header : Header p) (rest : Str) :
    headerLoop eof [] 0 [] (p ++ rest) = .ok ((headerLines p).map entry, rest) := by
  rcases headerLoop_framed eof (p ++ rest) with ⟨q, rest', whole, other, read⟩ | ⟨_, none⟩
  · obtain ⟨rfl, rfl⟩ := header.unique other whole
    exact read
  · exact absurd header (none p (List.prefix_append p rest))

theorem readHeader_headers {net : Net} {rx rest : Str} {Headers : List CVarVal} {node : CNode}
    {rx' : Str} (loop : headerLoop net.eof [] 0 [] rx = .ok (Headers, rest))
    (read : readHeader net rx = .ok (node, rx')) : node.Headers = Headers ∧ rx' = rest := by
  unfold readHeader at read
  rw [loop] at read
  cases Headers with
  | nil =>
    obtain ⟨rfl, rfl⟩ := Prod.mk.inj (Except.ok.inj read)
    exact ⟨rfl, rfl⟩
  | cons first more =>
    dsimp only at read
    cases line : requestLine first.Var with
    | error e =>
      rw [line] at read
      cases read
    | ok start =>
      rw [line] at read
      obtain ⟨rfl, rfl⟩ := Prod.mk.inj (Except.ok.inj read)
      exact ⟨rfl, rfl⟩

/-- Lines that end in CRLF, and the empty line behind them. -/
def headerText (lines : List Str) : Str := (headerReader 0).text ['\r'] lines

theorem headerText_framed {lines : List Str} (nonempty : lines ≠ []) (inside : ∀ l ∈ lines, '\n' ∉ l)
    (written : ∀ l ∈ lines, filtered l ≠ []) :
    Header (headerText lines) ∧ headerLines (headerText lines) = lines.map filtered ++ [[]] := by
  have seen l (member : l ∈ lines) : l.all (headerReader 0).skip = false := by
    obtain ⟨c, kept⟩ := List.exists_mem_of_ne_nil _ (written l member)
    obtain ⟨present, shown⟩ := List.mem_filter.mp kept
    exact List.all_eq_false.mpr ⟨c, present, by simpa [headerReader] using shown⟩
  refine ⟨Reader.block_text (R := headerReader 0) rfl (headerReader_total 0) [] (headerReader_cr 0)
    nonempty inside seen, ?_⟩
  rw [headerLines_eq 0, headerText,
    Reader.lines_text (R := headerReader 0) rfl (headerReader_cr 0) inside]
  exact congrArg (· ++ [[]]) (List.map_congr_left fun l _ => shown_eq 0 l)

/-! ### Names -/

theorem strtolower_eq_iff (s : Str) : strtolower s = s.map Char.toLower ↔
    ∀ c ∈ s.drop (sizeToInt s.length).toNat, c.toLower = c := by
  have split : s.map Char.toLower = (s.take (sizeToInt s.length).toNat).map Char.toLower ++
      (s.drop (sizeToInt s.length).toNat).map Char.toLower := by
    rw [← List.map_append, List.take_append_drop]
  have kept := @List.map_eq_map_iff _ _ Char.toLower (s.drop (sizeToInt s.length).toNat) id
  rw [List.map_id] at kept
  unfold strtolower
  rw [split, List.append_cancel_left_eq, eq_comm]
  exact kept

theorem named_entry_iff (name line : Str) : named (name.map Char.toLower) (entry line) = true ↔
    hasName name line = true ∧ (':' ∉ line → strtolower line = line.map Char.toLower) := by
  rw [named_iff, hasName, beq_iff_eq, entry]
  by_cases colon : ':' ∈ line
  · simp [colon, strtolower_of_lower]
  · rw [if_neg colon, Texts.takeWhile_ne_self colon]
    constructor
    · intro same
      have lower : line.map Char.toLower = name.map Char.toLower := by
        rw [← strtolower_lower line, same, List.map_map,
          show Char.toLower ∘ Char.toLower = Char.toLower from funext toLower_toLower]
      exact ⟨lower, fun _ => by rw [same, lower]⟩
    · rintro ⟨lower, whole⟩
      rw [whole colon, lower]

theorem lowered_iff (line : Str) : Lowered line ↔
    (':' ∉ line → strtolower line = line.map Char.toLower) := by
  rw [Lowered, strtolower_eq_iff, or_iff_not_imp_left]

/-- The lookup is right exactly if the first line with the name is compared as a whole. -/
theorem getHeader_iff {node : CNode} {lines : List Str} (headers : node.Headers = lines.map entry)
    {name : Str} (terminated : '\x00' ∉ name) :
    node.getHeader name = (lines.find? (hasName name)).map entry ↔
      ∀ line, lines.find? (hasName name) = some line → Lowered line := by
  have test line : named (name.map Char.toLower) (entry line) = true ↔
      hasName name line = true ∧ Lowered line := by
    rw [lowered_iff]
    exact named_entry_iff name line
  rw [getHeader_eq node terminated, headers]
  exact Texts.find?_map_iff test lines

/-! ### Streams -/

/-- The frame is right for every stream. The lookup of a name is right exactly if the first line
with it has a colon or is lowered as a whole. -/
theorem reads_iff (net : Net) (rx name : Str) : Reads net rx (cstr name) ↔
    ∀ p, p <+: rx → Header p → ' ' ∈ (headerLines p).headI → cstr name ≠ [] → ' ' ∉ cstr name →
      ∀ line, (headerLines p).find? (hasName (cstr name)) = some line → Lowered line := by
  have terminated := nul_not_mem_cstr name
  constructor
  · intro reads p inside header space named plain
    let node : CNode := { Headers := (headerLines p).map entry }
    have same := reads.lookup p inside header space named plain node rfl
    exact (getHeader_iff rfl terminated).mp same
  · intro lowered
    refine ⟨fun none => ?_, ?_, ?_, ?_⟩
    · rcases headerLoop_framed net.eof rx with ⟨p, rest, rfl, header, _⟩ | ⟨read, _⟩
      · exact absurd header (none p (List.prefix_append p rest))
      · unfold readHeader
        rw [read]
    · rintro p rest header rfl
      exact headerLoop_header net.eof header rest
    · rintro p rest header rfl node rx' read
      exact readHeader_headers (headerLoop_header net.eof header rest) read
    · intro p inside header space named plain node headers
      exact (getHeader_iff headers terminated).mpr (lowered p inside header space named plain)

theorem upper_missed {n : Nat} (long : 2 ^ 31 ≤ n) (wraps : n < 2 ^ 32) :
    ¬ Reads fullNet (headerText ["GET / HTTP/1.1".toList, List.replicate n 'A'])
      (List.replicate n 'a') := by
  intro reads
  have positive : 0 < n := Nat.lt_of_lt_of_le (Nat.two_pow_pos 31) long
  have upper : filtered (List.replicate n 'A') = List.replicate n 'A' := by
    unfold filtered
    rw [List.filter_replicate_of_pos (by decide)]
  have nonempty (c : Char) : List.replicate n c ≠ [] := by
    intro empty
    rw [List.replicate_eq_nil_iff] at empty
    omega
  obtain ⟨header, lines⟩ := @headerText_framed ["GET / HTTP/1.1".toList, List.replicate n 'A']
    (List.cons_ne_nil _ _) (by
      simp only [List.forall_mem_cons]
      exact ⟨by decide, Texts.not_mem_replicate (by decide) n, by simp⟩) (by
      simp only [List.forall_mem_cons]
      exact ⟨by decide, by rw [upper]; exact nonempty 'A', by simp⟩)
  have request : filtered "GET / HTTP/1.1".toList = "GET / HTTP/1.1".toList := by decide
  simp only [List.map_cons, List.map_nil, request, upper, List.cons_append,
    List.nil_append] at lines
  have lookup := reads.lookup _ List.prefix_rfl header
    (by rw [lines]; exact (by decide : ' ' ∈ "GET / HTTP/1.1".toList)) (nonempty 'a')
    (Texts.not_mem_replicate (by decide) n) { Headers := (headerLines _).map entry } rfl
  rw [getHeader_iff rfl (Texts.not_mem_replicate (by decide) n), lines] at lookup
  have first : hasName (List.replicate n 'a') "GET / HTTP/1.1".toList = false := by
    unfold hasName
    rw [beq_eq_false_iff_ne, List.map_replicate]
    intro same
    have space : ' ' ∈ List.replicate n ('a'.toLower) := same ▸ by decide
    exact Texts.not_mem_replicate (by decide) n space
  have second : hasName (List.replicate n 'a') (List.replicate n 'A') = true := by
    unfold hasName
    rw [Texts.takeWhile_ne_self (Texts.not_mem_replicate (by decide) n), List.map_replicate,
      List.map_replicate]
    exact beq_self_eq_true _
  have lowered := lookup (List.replicate n 'A')
    (by rw [List.find?_cons, first, List.find?_cons, second])
  rcases lowered with colon | lower
  · exact Texts.not_mem_replicate (by decide) n colon
  · have negative := sizeToInt_large long wraps
    rw [List.length_replicate, Int.toNat_of_nonpos negative.le, List.drop_zero] at lower
    exact absurd (lower 'A' (List.mem_replicate.mpr ⟨positive.ne', rfl⟩)) (by decide)

/-- The name of 2^31 letters is not found. -/
theorem long_name_missed : ¬ ∀ (net : Net) (rx name : Str), '\x00' ∉ name → Reads net rx name := by
  intro claim
  exact @upper_missed (2 ^ 31) (by omega) (by omega)
    (claim _ _ _ (Texts.not_mem_replicate (by decide) _))

end Solusek.Node
